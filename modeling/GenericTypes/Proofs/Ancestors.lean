import GenericTypes.Proofs.Arena
import GenericTypes.Proofs.Checking

/-!
# What a type inherits

A class inherits types: those that it declares, and what those inherit, with
their arguments put in. `Inherits` says so of the declarations, where all of it
is written in the parameters of the class, and `InheritsOnce` that no generic
class is inherited with two lists of arguments. Naming one raw does not count.

A search goes from a type to its direct supertypes and on (`find_ancestor`), and
above a type of a class this is what the class inherits, with the arguments of
the type put in (`ancestor_class`). Above an array it is the arrays of what is
above the component, and the types above all arrays (`ancestor_array`). So a
search from either finds the direct supertype that was asked for, or the class
of it raw (`only_ancestor`).
-/

namespace GenericTypes

open Relation

namespace Ty

/-- Types made of classes: primitive ones, those of a class, and arrays of
these in either spelling. -/
@[elab_as_elim] theorem known_induct
    {P : (t : Ty) → t.element.isUnknown = false → Prop}
    (primitive : ∀ p ht, P (.primitive p) ht)
    (ofClass : ∀ t id ht, t.head? = some id → P t ht)
    (array : ∀ t k ht hk, t.component? = some k → P k hk → P t ht) (t : Ty)
    (ht : t.element.isUnknown = false) : P t ht := by
  induction t using induct with
  | nominal c =>
      induction c with
      | named id => exact ofClass _ id _ rfl
      | primitive p => exact primitive p _
      | array c ih => exact array _ (.nominal c) _ rfl rfl (ih rfl)
  | parameterized id _ _ _ _ => exact ofClass _ id _ rfl
  | genericArray k ih => exact array _ k _ ht rfl (ih ht)
  | var _ | wildcard _ _ _ _ | capture _ => cases ht

theorem element_of_head? {t : Ty} {id : ClassId} (h : t.head? = some id) :
    t.element = t := by
  cases t with
  | nominal _ | parameterized _ _ _ => rfl
  | var _ | wildcard _ _ | genericArray _ | capture _ => cases h

theorem isErasable_of_element {t : Ty} (h : t.element.isUnknown = false) :
    t.isErasable = true := by
  rw [isErasable]
  cases he : t.element with
  | nominal _ | parameterized _ _ _ | genericArray _ | var _ => rfl
  | wildcard _ _ | capture _ =>
      rw [he] at h
      cases h

end Ty

namespace Declarations

open Resolver (seen)

/-- The type is among those that the class `id` inherits, written in the
parameters of the class. -/
inductive Inherits (d : Declarations) (id : ClassId) : Ty → Prop where
  | declared {c : ClassDecl} {s : Ty} (hc : d.class? id = some c)
    (hs : s ∈ c.supertypes) :
      Inherits d id s
  | through {g s : Ty} {parent : ClassId} {c : ClassDecl} (h : Inherits d id g)
      (hparent : g.head? = some parent) (hc : d.class? parent = some c)
      (hs : s ∈ c.supertypes) :
      Inherits d id (seen d g s)

/-- No class inherits another with two different lists of arguments. -/
def InheritsOnce (d : Declarations) : Prop :=
  ∀ id parent args args' owner owner', d.Inherits id
      (.parameterized parent args owner) →
    d.Inherits id (.parameterized parent args' owner') → args = args' ∧
      owner = owner'

/-- The supertypes that the class of `g` declares, seen through `g`. -/
def declaredAbove (d : Declarations) (g : Ty) : List Ty :=
  match g.head?.bind d.class? with
  | some c => c.supertypes.map (seen d g)
  | none => []

/-- What is inherited through some types, these included, in a number of
steps. -/
def inheritedWithin (d : Declarations) : Nat → List Ty → List Ty
  | 0, _ => []
  | n + 1, gs => gs ++ d.inheritedWithin n (gs.flatMap d.declaredAbove)

/-- A number of steps leads to all that a class with these supertypes
inherits. -/
def ExhaustedWithin (d : Declarations) (n : Nat) (ts : List Ty) : Prop :=
  (∀ s ∈ ts, s ∈ d.inheritedWithin n ts) ∧
    ∀ g ∈ d.inheritedWithin n ts, ∀ s ∈ d.declaredAbove g,
      s ∈ d.inheritedWithin n ts

instance decidableExhaustedWithin (d : Declarations) (n : Nat) (ts : List Ty) :
    Decidable (d.ExhaustedWithin n ts) :=
  inferInstanceAs (Decidable (_ ∧ _))

theorem Inherits.mem_within {d : Declarations} {id : ClassId} {c : ClassDecl}
    {g : Ty} {n : Nat} (hg : d.Inherits id g) (hc : d.class? id = some c)
    (hexhausted : d.ExhaustedWithin n c.supertypes) :
    g ∈ d.inheritedWithin n c.supertypes := by
  induction hg with
  | declared hc' hs =>
      obtain rfl := Option.some.inj (hc.symm.trans hc')
      exact hexhausted.1 _ hs
  | @through g s parent c' _ hparent hc' hs ih =>
      refine hexhausted.2 g ih _ ?_
      rw [declaredAbove, hparent, Option.bind_some, hc']
      exact List.mem_map_of_mem hs

theorem Inherits.source {d : Declarations} {id : ClassId} {g : Ty}
    (hg : d.Inherits id g) : ∃ c, d.class? id = some c := by
  induction hg with
  | declared hc _ => exact ⟨_, hc⟩
  | through _ _ _ _ ih => exact ih

end Declarations

namespace Resolver

open Declarations

variable {r : Resolver} {d : Declarations} {arena : Array CaptureDef}
  {t s g k : Ty} {id parent : ClassId} {n : Nat}

/-- Above the top type is at most the top type. -/
theorem eq_top_of_directly (h : r.env.WellFormed) (htop : r.env.Topmost)
    (hs : r.Directly arena r.env.top s) : s = r.env.top := by
  have hsupplies : r.env.Supplies r.env.wellKnown.object r.env.top :=
    .plain (h.known _ List.mem_cons_self)
  obtain ⟨c, hc, hs⟩ := mem_of_directly h hsupplies hs
  unfold seenSupertypes at hs
  split at hs
  · exact List.mem_singleton.1 hs
  · rw [htop c hc] at hs
    cases hs

/-! ## What a class inherits -/

theorem complete_inherited (h : r.env.WellFormed) (hg : r.env.Inherits id g) :
    r.env.Complete 0 g ∧ ∃ parent, g.head? = some parent := by
  have hdeclared : ∀ {id c s}, r.env.class? id = some c → s ∈ c.supertypes →
      r.env.Complete 0 s ∧ ∃ parent, s.head? = some parent := by
    intro id c s hc hs
    obtain ⟨hhead, hproper⟩ := h.supertypes hc s hs
    exact ⟨hproper.complete, Option.isSome_iff_exists.1 hhead⟩
  induction hg with
  | declared hc hs => exact hdeclared hc hs
  | through _ _ hc hs ih =>
      obtain ⟨hs, parent, hparent⟩ := hdeclared hc hs
      exact ⟨complete_seen ih.1 hs hparent, parent,
        (supplies_seen hs hparent).head?⟩

/-- To see through a type with values put in is to see through the type and put
the values in then. -/
theorem seen_subst (h : d.WellFormed) (hg : d.Complete n g)
    (hparent : g.head? = some parent) {c : ClassDecl}
    (hc : d.class? parent = some c) (hs : s ∈ c.supertypes)
    (φ : TypeVarId → Ty) : seen d (g.subst φ) s = (seen d g s).subst φ := by
  have hrawly : d.rawly (g.subst φ) = d.rawly g := by
    cases g with
    | nominal _ | parameterized _ _ _ => rfl
    | var _ | wildcard _ _ | genericArray _ | capture _ => cases hparent
  obtain ⟨hhead, hproper⟩ := h.supertypes hc s hs
  obtain ⟨e, he⟩ := h.erase_declared hproper
  rw [seen, seen, hrawly]
  cases hraw : d.rawly g with
  | true =>
      rw [if_pos rfl, if_pos rfl, he]
      rfl
  | false =>
      rw [if_neg Bool.false_ne_true, if_neg Bool.false_ne_true, Ty.subst_subst]
      refine Ty.subst_congr fun v hv => ?_
      obtain ⟨w, hw⟩ := Option.isSome_iff_exists.1
        ((hg.supplies hparent).chainValue_isSome h hraw (.supertype hc hs hv))
      obtain ⟨-, -, hvalue⟩ :=
        Declarations.chain_subst φ hg (by rw [hparent]; rfl)
      rw [chainSubst, chainSubst, hvalue, hw]
      rfl

/-! ## Arrays -/

theorem above_component (hk : t.component? = some k) : r.above arena t =
    r.above arena k >>= fun ts => .ok (r.arraySupertypes ts) := by
  rcases Ty.component?_eq_some_iff.1 hk with ⟨c, rfl, rfl⟩ | rfl <;> rfl

theorem erase_component (hk : t.component? = some k) :
    d.erase t = d.erase k >>= fun c => .ok (.array c) := by
  rcases Ty.component?_eq_some_iff.1 hk with ⟨c, rfl, rfl⟩ | rfl <;> rfl

theorem erase_array {c : Class} (hk : t.component? = some k)
    (hc : d.erase t = .ok c) : ∃ a, d.erase k = .ok a ∧ c = .array a := by
  rw [erase_component hk] at hc
  obtain ⟨a, ha, heq⟩ := Outcome.bind_eq_ok hc
  exact ⟨a, ha, (Outcome.ok.inj heq).symm⟩

/-- The direct supertypes of an array are the arrays of those of its component,
and the types above all arrays. -/
theorem of_directly_array (hk : t.component? = some k)
    (hs : r.Directly arena t s) : (∃ y, r.Directly arena k y ∧ s = y.arrayOf) ∨
      ∃ top ∈ r.env.wellKnown.aboveArrays, s = .named top := by
  obtain ⟨ts, hts, hs⟩ := hs
  rw [above_component hk] at hts
  obtain ⟨ks, hks, heq⟩ := Outcome.bind_eq_ok hts
  obtain rfl := Outcome.ok.inj heq
  rcases List.mem_append.1 hs with hs | hs
  · obtain ⟨y, hy, rfl⟩ := List.mem_map.1 hs
    exact .inl ⟨y, ⟨ks, hks, hy⟩, rfl⟩
  · obtain ⟨top, htop, rfl⟩ := List.mem_map.1 hs
    exact .inr ⟨top, htop, rfl⟩

/-! ## What is above classes and arrays -/

section

variable (h : r.env.WellFormed)

include h

/-- The direct supertypes of a type of a class are the declared ones as seen
through it, and for some interfaces the top type. -/
theorem of_directly_class (ht : r.env.Supplies id t)
    (hs : r.Directly arena t s) :
    s = r.env.top ∨ ∃ c s₀, r.env.class? id = some c ∧ s₀ ∈ c.supertypes ∧
      s = seen r.env.toDeclarations t s₀ := by
  obtain ⟨c, hc, hs⟩ := mem_of_directly h ht hs
  unfold seenSupertypes at hs
  split at hs
  · exact .inl (List.mem_singleton.1 hs)
  · obtain ⟨s₀, hs₀, rfl⟩ := List.mem_map.1 hs
    exact .inr ⟨c, s₀, hc, hs₀, rfl⟩

/-- They are of the classes it is declared under. -/
theorem directly_of_class (ht : r.env.Supplies id t)
    (hs : r.Directly arena t s) :
    s = r.env.top ∨ ∃ parent, r.env.Supplies parent s ∧
      r.env.Extends id parent := by
  obtain ⟨c, hc, hs⟩ := mem_of_directly h ht hs
  obtain ⟨⟨parent, hext, hparent⟩ | ⟨rfl, -⟩, -⟩ :=
    of_mem_seenSupertypes h ht hc hs
  · exact .inr ⟨parent, hparent, hext⟩
  · exact .inl rfl

/-- What is strictly above a type of a class is the top type, or of a class
strictly above that class. -/
theorem strictly_above_class (htop : r.env.Topmost) (ht : r.env.Supplies id t)
    (hg : TransGen (r.Directly arena) t g) :
    g = r.env.top ∨ ∃ id', r.env.Supplies id' g ∧
      TransGen r.env.Extends id id' := by
  induction hg with
  | single hs =>
      exact (directly_of_class h ht hs).imp_right fun ⟨id', hid', hext⟩ =>
        ⟨id', hid', .single hext⟩
  | tail _ hs ih =>
      rcases ih with rfl | ⟨mid, hmid, hup⟩
      · exact .inl (eq_top_of_directly h htop hs)
      · exact (directly_of_class h hmid hs).imp_right fun ⟨id', hid', hext⟩ =>
          ⟨id', hid', hup.tail hext⟩

/-- What is above a type of a class is of the top class or of one above that
class. -/
theorem ancestor_of_class (htop : r.env.Topmost) (ht : r.env.Supplies id t)
    (hg : ReflTransGen (r.Directly arena) t g) :
    ∃ id', r.env.Supplies id' g ∧
      (id' = r.env.wellKnown.object ∨ ReflTransGen r.env.Extends id id') := by
  rcases reflTransGen_iff_eq_or_transGen.1 hg with rfl | hg
  · exact ⟨id, ht, .inr .refl⟩
  rcases strictly_above_class h htop ht hg with rfl | ⟨id', hid', hup⟩
  · exact ⟨_, .plain (h.known _ List.mem_cons_self), .inl rfl⟩
  · exact ⟨id', hid', .inr hup.to_reflTransGen⟩

/-- What is above a type of a class is inherited by the class. -/
theorem ancestor_class (htop : r.env.Topmost) (ht : r.env.Supplies id t)
    (hraw : r.env.rawly t = false) (hg : TransGen (r.Directly arena) t g) :
    g = r.env.top ∨ ∃ g₀, r.env.Inherits id g₀ ∧
      g = g₀.subst (r.env.chainSubst t) := by
  induction hg with
  | single hs =>
      rcases of_directly_class h ht hs with rfl | ⟨c, s₀, hc, hs₀, rfl⟩
      · exact .inl rfl
      · refine .inr ⟨s₀, .declared hc hs₀, ?_⟩
        rw [seen, hraw, if_neg Bool.false_ne_true]
  | tail _ hs ih =>
      rcases ih with rfl | ⟨g₀, hg₀, rfl⟩
      · exact .inl (eq_top_of_directly h htop hs)
      · obtain ⟨hcomplete, parent, hparent⟩ := complete_inherited h hg₀
        have hsupplies := hcomplete.supplies_subst hparent (r.env.chainSubst t)
        rcases of_directly_class h hsupplies hs with rfl | ⟨c, s₀, hc, hs₀, rfl⟩
        · exact .inl rfl
        · exact .inr ⟨_, .through hg₀ hparent hc hs₀,
            seen_subst h hcomplete hparent hc hs₀ _⟩

/-- A declared supertype as seen through a type of the class is one of its
direct supertypes. -/
theorem directly_seen (ht : r.env.Supplies id t) {c : ClassDecl}
    (hc : r.env.class? id = some c) (hs : s ∈ c.supertypes) :
    r.Directly arena t (seen r.env.toDeclarations t s) := by
  refine ⟨r.seenSupertypes c t, above_eq h ht hc, ?_⟩
  have hne : c.supertypes.isEmpty = false := by
    cases hsup : c.supertypes with
    | nil => simp [hsup] at hs
    | cons _ _ => rfl
  rw [seenSupertypes, hne]
  exact List.mem_map_of_mem hs

/-- What a class inherits is above every type of it that is not raw. -/
theorem inherited_above (ht : r.env.Supplies id t)
    (hraw : r.env.rawly t = false) (hg : r.env.Inherits id g) :
    TransGen (r.Directly arena) t (g.subst (r.env.chainSubst t)) := by
  induction hg with
  | declared hc hs =>
      have hdirectly : r.Directly arena t (seen r.env.toDeclarations t _) :=
        directly_seen h ht hc hs
      rw [seen, hraw, if_neg Bool.false_ne_true] at hdirectly
      exact .single hdirectly
  | through hg hparent hc hs ih =>
      obtain ⟨hcomplete, -⟩ := complete_inherited h hg
      rw [← seen_subst h hcomplete hparent hc hs]
      exact ih.tail (directly_seen h (hcomplete.supplies_subst hparent _) hc hs)

/-- What a class inherits mentions only variables that the class uses. -/
theorem uses_of_inherited {v : TypeVarId} (hg : r.env.Inherits id g)
    (hv : .var v ∈ g.parts) : r.env.Uses id v := by
  induction hg with
  | declared hc hs => exact .supertype hc hs hv
  | @through g s parent c hg hparent hc hs ih =>
      have hsupplies := (complete_inherited h hg).1.supplies hparent
      have hused : ∀ w, .var w ∈ s.parts → w ∈ [] ∨
          r.env.Uses parent w := fun w hw =>
        .inr (.supertype hc hs hw)
      exact ih
        ((var_mem_seen hsupplies hused h
          (h.supertypes hc s hs).2 hv).resolve_right List.not_mem_nil)

/-- Direct supertypes of complete types of classes, and of arrays of these, are
complete. -/
theorem complete_directly (ht : t.element.isUnknown = false) :
    r.env.Complete n t → ∀ {s}, r.Directly arena t s → r.env.Complete n s := by
  have hnamed : ∀ {top}, top ∈ r.env.wellKnown.aboveArrays →
      r.env.Complete n (.named top) :=
    fun htop x hx => List.mem_singleton.1 hx ▸ h.known _ htop
  induction t, ht using Ty.known_induct with
  | primitive p _ =>
      intro _ s hs
      exact absurd (isPrimitive_of_directly hs) Bool.noConfusion
  | ofClass t id _ hid =>
      intro ht s hs
      rcases of_directly_class h (ht.supplies hid) hs with
          rfl | ⟨c, s₀, hc, hs₀, rfl⟩
      · exact hnamed List.mem_cons_self
      · obtain ⟨hhead, hproper⟩ := h.supertypes hc s₀ hs₀
        obtain ⟨parent, hparent⟩ := Option.isSome_iff_exists.1 hhead
        exact complete_seen ht hproper.complete hparent
  | array t k _ _ hk ih =>
      intro ht s hs
      rcases of_directly_array hk hs with ⟨y, hy, rfl⟩ | ⟨top, htop, rfl⟩
      · exact (ih (ht.component? hk) hy).arrayOf
      · exact hnamed htop

/-- And they are of classes, or arrays of these. -/
theorem known_directly_of_known (ht : t.element.isUnknown = false) :
    r.env.Complete n t → ∀ {s}, r.Directly arena t s →
      s.element.isUnknown = false := by
  induction t, ht using Ty.known_induct with
  | primitive p _ =>
      intro _ s hs
      exact absurd (isPrimitive_of_directly hs) Bool.noConfusion
  | ofClass t id _ hid =>
      intro ht s hs
      rcases directly_of_class h (ht.supplies hid) hs with
          rfl | ⟨parent, hparent, -⟩
      · rfl
      · cases hparent <;> rfl
  | array t k _ _ hk ih =>
      intro ht s hs
      rcases of_directly_array hk hs with ⟨y, hy, rfl⟩ | ⟨top, -, rfl⟩
      · have hy := ih (ht.component? hk) hy
        cases y with
        | nominal _ => rfl
        | parameterized _ _ _ | genericArray _ | var _ | wildcard _ _
        | capture _ => exact hy
      · rfl

/-- Above an array are the arrays of what is above its component. All else is a
type of a class. -/
theorem ancestor_array (hk : t.component? = some k)
    (hg : TransGen (r.Directly arena) t g) :
    (∃ y, TransGen (r.Directly arena) k y ∧ g = y.arrayOf) ∨
      ∃ id, r.env.Supplies id g := by
  have hknown : ∀ top ∈ r.env.wellKnown.aboveArrays, ∃ id, r.env.Supplies id
      (.named top) :=
    fun top htop => ⟨top, .plain (h.known top htop)⟩
  induction hg with
  | single hs =>
      rcases of_directly_array hk hs with ⟨y, hy, rfl⟩ | ⟨top, htop, rfl⟩
      · exact .inl ⟨y, .single hy, rfl⟩
      · exact .inr (hknown top htop)
  | tail _ hs ih =>
      rcases ih with ⟨y, hy, rfl⟩ | ⟨id, hid⟩
      · rcases of_directly_array (Ty.component?_arrayOf y) hs with
            ⟨y', hy', rfl⟩ | ⟨top, htop, rfl⟩
        · exact .inl ⟨y', hy.tail hy', rfl⟩
        · exact .inr (hknown top htop)
      · rcases of_directly_class h hid hs with rfl | ⟨c, s₀, hc, hs₀, rfl⟩
        · exact .inr (hknown _ List.mem_cons_self)
        · obtain ⟨hhead, hproper⟩ := h.supertypes hc s₀ hs₀
          obtain ⟨parent, hparent⟩ := Option.isSome_iff_exists.1 hhead
          exact .inr ⟨parent, supplies_seen hproper.complete hparent⟩

end

/-- Arrays are covariant in components that are not primitive, and where one
component is strictly above the other neither is. -/
theorem assignable_array {c a : Class} (hassign : r.env.assignable c a = true)
    (hne : c ≠ a) (hhost : r.env.hostTest = none) :
    r.env.assignable (.array c) (.array a) = true := by
  rw [Environment.assignable, hhost] at hassign ⊢
  cases c with
  | primitive p =>
      cases a with
      | primitive q => exact absurd (of_decide_eq_true hassign) hne
      | named _ | array _ => cases hassign
  | named _ | array _ =>
      cases a with
      | primitive q => exact absurd (of_decide_eq_true hassign) hne
      | named _ | array _ =>
          show (decide _ || _) = true
          rw [Bool.or_eq_true]
          exact .inr hassign

/-- Of two types that a class inherits for one and the same class, one is plain
or they are equal. -/
theorem inherited_once (honce : r.env.InheritsOnce) {id parent : ClassId}
    (hs : r.env.Inherits id s) (hg : r.env.Inherits id g)
    (hsp : s.head? = some parent) (hgp : g.head? = some parent) :
    (∃ b, s = .nominal b) ∨ (∃ b, g = .nominal b) ∨ g = s := by
  cases s with
  | nominal b => exact .inl ⟨b, rfl⟩
  | var _ | wildcard _ _ | genericArray _ | capture _ => cases hsp
  | parameterized p args owner =>
      cases g with
      | nominal b => exact .inr (.inl ⟨b, rfl⟩)
      | var _ | wildcard _ _ | genericArray _ | capture _ => cases hgp
      | parameterized q args' owner' =>
          obtain rfl := Option.some.inj hsp
          obtain rfl := Option.some.inj hgp
          obtain ⟨rfl, rfl⟩ := honce id _ args args' owner owner' hs hg
          exact .inr (.inr rfl)

section

variable (h : r.env.Founded)

include h

/-- A direct supertype is of another class, to which that of the type may be
assigned. -/
theorem erasures_directly (hhost : r.env.hostTest = none)
    (ht : t.element.isUnknown = false) :
    r.env.Regular n t → ∀ {s}, r.Directly arena t s →
      ∃ a c, r.env.erase t = .ok a ∧ r.env.erase s = .ok c ∧
        r.env.assignable c a = true ∧
        c ≠ a := by
  induction t, ht using Ty.known_induct with
  | primitive p _ =>
      intro _ s hs
      exact absurd (isPrimitive_of_directly hs) Bool.noConfusion
  | ofClass t id _ hid =>
      intro ht s hs
      have hsupplies := ht.complete.supplies hid
      obtain ⟨c, hc, hs⟩ := mem_of_directly h.wellFormed hsupplies hs
      obtain ⟨hparent, -⟩ := of_mem_seenSupertypes h.wellFormed hsupplies hc hs
      refine ⟨.named id, ?_⟩
      rcases hparent with ⟨parent, hext, hparent⟩ | ⟨rfl, -, hkind, -⟩
      · refine ⟨.named parent, erase_supplies hsupplies,
          erase_supplies hparent, ?_, ?_⟩
        · exact (assignable_named hhost parent id).2 (.inr (.single hext))
        · intro heq
          obtain rfl := Class.named.inj heq
          exact h.wellFormed.hierarchy _ (.single hext)
      · refine ⟨.named r.env.wellKnown.object, erase_supplies hsupplies,
          rfl, ?_, ?_⟩
        · exact (assignable_named hhost _ id).2 (.inl rfl)
        · intro heq
          obtain rfl := Class.named.inj heq
          obtain ⟨c', hc', hkind', -⟩ := h.grounded.top
          obtain rfl := Option.some.inj (hc.symm.trans hc')
          rw [hkind] at hkind'
          cases hkind'
  | array t k _ hknown hk ih =>
      intro ht s hs
      have hcomponent := ht.component? hk
      rcases of_directly_array hk hs with ⟨y, hy, rfl⟩ | ⟨top, htop, rfl⟩
      · obtain ⟨a, c, ha, hc, hassign, hne⟩ := ih hcomponent hy
        refine ⟨.array a, .array c, ?_, ?_,
          assignable_array hassign hne hhost, ?_⟩
        · rw [erase_component hk, ha]
          rfl
        · rw [erase_component (Ty.component?_arrayOf y), hc]
          rfl
        · exact fun heq => hne (Class.array.inj heq)
      · obtain ⟨a, ha⟩ := h.wellFormed.erase_ok hcomponent.complete
          (Ty.isErasable_of_element hknown)
        refine ⟨.array a, .named top, ?_, rfl, ?_, nofun⟩
        · rw [erase_component hk, ha]
          rfl
        · rw [Environment.assignable, hhost]
          exact List.contains_iff_mem.2 htop

/-- Of what is above a type, only the direct supertype itself is of its class,
or else the class stands there without arguments. -/
theorem only_ancestor (honce : r.env.InheritsOnce)
    (ht : t.element.isUnknown = false) :
    r.env.Regular n t → ∀ {s g c}, r.Directly arena t s →
      TransGen (r.Directly arena) t g →
      r.env.erase s = .ok c → r.env.erase g = .ok c →
      (∃ b, s = .nominal b) ∨ (∃ b, g = .nominal b) ∨ g = s := by
  induction t, ht using Ty.known_induct with
  | primitive p _ =>
      intro _ s g c hs
      exact absurd (isPrimitive_of_directly hs) Bool.noConfusion
  | ofClass t id _ hid =>
      intro ht s g c hs hg hsc hgc
      have hsupplies := ht.complete.supplies hid
      cases hraw : r.env.rawly t with
      | true =>
          rcases of_directly_class h.wellFormed hsupplies hs with
              rfl | ⟨c₀, s₀, hc₀, hs₀, rfl⟩
          · exact .inl ⟨_, rfl⟩
          · obtain ⟨e, he⟩ :=
              h.wellFormed.erase_declared (h.wellFormed.supertypes hc₀ s₀ hs₀).2
            rw [seen, hraw, if_pos rfl, he]
            exact .inl ⟨e, rfl⟩
      | false =>
          have htop := h.topped.topmost
          rcases ancestor_class h.wellFormed htop hsupplies hraw
              (.single hs) with
            rfl | ⟨s₀, hs₀, rfl⟩
          · exact .inl ⟨_, rfl⟩
          rcases ancestor_class h.wellFormed htop hsupplies hraw hg with
              rfl | ⟨g₀, hg₀, rfl⟩
          · exact .inr (.inl ⟨_, rfl⟩)
          obtain ⟨-, p, hp⟩ := complete_inherited h.wellFormed hs₀
          obtain ⟨-, q, hq⟩ := complete_inherited h.wellFormed hg₀
          have hclass : p = q := by
            have hsp := erase_head (d := r.env.toDeclarations)
              (Ty.head?_subst hp (r.env.chainSubst t))
            have hgq := erase_head (d := r.env.toDeclarations)
              (Ty.head?_subst hq (r.env.chainSubst t))
            rw [hsp] at hsc
            rw [hgq, ← hsc] at hgc
            exact (Class.named.inj (Outcome.ok.inj hgc)).symm
          subst hclass
          rcases inherited_once honce hs₀ hg₀ hp hq with
              ⟨b, rfl⟩ | ⟨b, rfl⟩ | rfl
          · exact .inl ⟨b, rfl⟩
          · exact .inr (.inl ⟨b, rfl⟩)
          · exact .inr (.inr rfl)
  | array t k _ _ hk ih =>
      intro ht s g c hs hg hsc hgc
      have hcomponent := ht.component? hk
      rcases of_directly_array hk hs with ⟨y, hy, rfl⟩ | ⟨top, -, rfl⟩
      · obtain ⟨a, hya, rfl⟩ := erase_array (Ty.component?_arrayOf y) hsc
        rcases ancestor_array h.wellFormed hk hg with ⟨y', hy', rfl⟩ | ⟨id, hid⟩
        · obtain ⟨a', hya', heq⟩ := erase_array (Ty.component?_arrayOf y') hgc
          obtain rfl := Class.array.inj heq
          rcases ih hcomponent hy hy' hya hya' with ⟨b, rfl⟩ | ⟨b, rfl⟩ | rfl
          · exact .inl ⟨_, rfl⟩
          · exact .inr (.inl ⟨_, rfl⟩)
          · exact .inr (.inr rfl)
        · rw [erase_supplies hid] at hgc
          cases hgc
      · exact .inl ⟨_, rfl⟩

end

end Resolver

namespace TypeStore

/-- In the core package a class inherits no two types of one class. -/
theorem core_inheritsOnce : core.toDeclarations.InheritsOnce := by
  intro id parent args args' owner owner' hg hg'
  obtain ⟨c, hc⟩ := hg.source
  obtain ⟨hexhausted, honce⟩ :=
    Declarations.forall_class (d := core.toDeclarations)
      (P := fun _ c => core.toDeclarations.ExhaustedWithin 4 c.supertypes ∧
        ∀ g ∈ core.toDeclarations.inheritedWithin 4 c.supertypes,
          ∀ g' ∈ core.toDeclarations.inheritedWithin 4 c.supertypes,
            g.head? = g'.head? → g = g')
      (by decide) hc
  have heq :=
    honce _ (hg.mem_within hc hexhausted) _ (hg'.mem_within hc hexhausted) rfl
  obtain ⟨-, rfl, rfl⟩ := Ty.parameterized.inj heq
  exact ⟨rfl, rfl⟩

end TypeStore

end GenericTypes
