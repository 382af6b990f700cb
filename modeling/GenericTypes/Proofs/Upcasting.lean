import GenericTypes.Proofs.ArraySpelling
import GenericTypes.Proofs.DirectSupertypes
import GenericTypes.Proofs.Pruning
import GenericTypes.Proofs.Verdict

/-!
# Upcasting first changes no answer

A search stops at the first match, so in a diamond it takes one of several ways
up. Which one does not matter as long as all of them end in the same type. That
is so where a class inherits each class above it in one form (`InheritsAlike`):
two types strictly above a third, of one class, are then equal
(`eq_of_strictly_above`), for both are what the class inherits with the
arguments of the type put in.

A search among types of classes finds something as soon as something is there to
be found (`find_reached`). A type found from a supertype is there to be found
from below, and nothing else of its class is.

Three things have to be said of the declarations for that, and each matters. The
top type is passed over as a way up, so nothing may be declared above it; a lone
interface has it above it as a plain class, so nobody may inherit it in another
spelling; and a class without parameters can be written with an empty list of
arguments, which makes it another type.
-/

namespace GenericTypes

open Relation

namespace Declarations

/-- A class inherits the class `parent` in one form only, up to the spelling of
arrays. The top type counts as inherited, since it may be so without being
declared. -/
def InheritsAlike (d : Declarations) (parent : ClassId) : Prop :=
  ∀ id g g', (d.Inherits id g ∨ g = d.top) → (d.Inherits id g' ∨ g' = d.top) →
    g.head? = some parent → g'.head? = some parent →
    g.normalForm = g'.normalForm

/-- No class with a variable in scope is named without arguments. -/
structure NeverRaw (d : Declarations) : Prop where
  classes : ∀ {id c}, d.class? id = some c →
    ∀ t ∈ c.types, ∀ x ∈ t.parts, d.rawly x = false
  bounds : ∀ v, ∀ b ∈ d.boundsOf v, ∀ x ∈ b.parts, d.rawly x = false

/-- Declarations that make one use of each generic class: they never name it
raw, and no class inherits it with two lists of arguments. -/
structure Disciplined (d : Declarations) : Prop where
  wellFormed : d.WellFormed
  converted : d.DeclaresConverted
  neverRaw : d.NeverRaw
  once : ∀ {parent v}, d.InScope parent v → d.InheritsAlike parent

variable {d : Declarations}

/-- Each class is inherited in one form where this is so of what a number of
steps leads to. -/
theorem inheritsAlike_of_slots {n : Nat} {P : ClassId → Prop}
    (h : ∀ i < d.classes.size, ∀ c ∈ d.class? ⟨i⟩,
      d.ExhaustedWithin n c.supertypes ∧
      ∀ g ∈ d.top :: d.inheritedWithin n c.supertypes,
        ∀ g' ∈ d.top :: d.inheritedWithin n c.supertypes, g.head? = g'.head? →
          (∀ parent ∈ g.head?, P parent) → g.normalForm = g'.normalForm)
    {parent : ClassId} (hparent : P parent) : d.InheritsAlike parent := by
  intro id g g' hg hg' hhead hhead'
  cases hc : d.class? id with
  | none =>
      have hnone : ∀ {g}, ¬ d.Inherits id g := fun hg => by
        obtain ⟨c, hc'⟩ := hg.source
        rw [hc] at hc'
        cases hc'
      rw [hg.resolve_left hnone, hg'.resolve_left hnone]
  | some c =>
      obtain ⟨hexhausted, hform⟩ := forall_class (P := fun _ c =>
        d.ExhaustedWithin n c.supertypes ∧
          ∀ g ∈ d.top :: d.inheritedWithin n c.supertypes,
          ∀ g' ∈ d.top :: d.inheritedWithin n c.supertypes, g.head? = g'.head? →
            (∀ parent ∈ g.head?, P parent) → g.normalForm = g'.normalForm) h hc
      have hmem : ∀ {g}, d.Inherits id g ∨ g = d.top →
          g ∈ d.top :: d.inheritedWithin n c.supertypes := by
        rintro g (hg | rfl)
        · exact List.mem_cons_of_mem _ (hg.mem_within hc hexhausted)
        · exact List.mem_cons_self
      refine hform g (hmem hg) g' (hmem hg') (hhead.trans hhead'.symm)
        fun p hp => ?_
      obtain rfl := Option.some.inj (hhead.symm.trans hp)
      exact hparent

/-- Well-formed declarations are disciplined where each slot is. -/
theorem disciplined_of_slots {n : Nat} (hwf : d.WellFormed)
    (hclasses : ∀ i < d.classes.size, ∀ c ∈ d.class? ⟨i⟩,
      (∀ s ∈ c.supertypes, s.Converted) ∧
        ∀ t ∈ c.types, ∀ x ∈ t.parts, d.rawly x = false)
    (hbounds : ∀ i < d.typeParams.size, ∀ p ∈ d.typeParam? ⟨i⟩,
      ∀ b ∈ p.upperBounds, ∀ x ∈ b.parts, d.rawly x = false)
    (honce : ∀ i < d.classes.size, ∀ c ∈ d.class? ⟨i⟩,
      d.ExhaustedWithin n c.supertypes ∧
      ∀ g ∈ d.top :: d.inheritedWithin n c.supertypes,
        ∀ g' ∈ d.top :: d.inheritedWithin n c.supertypes, g.head? = g'.head? →
          (∀ parent ∈ g.head?, d.isRaw (.named parent) = .ok true) →
            g.normalForm = g'.normalForm) : d.Disciplined where
  wellFormed := hwf
  converted := fun _ _ hc =>
    (forall_class (P := fun _ c => (∀ s ∈ c.supertypes, s.Converted) ∧
      ∀ t ∈ c.types, ∀ x ∈ t.parts, d.rawly x = false) hclasses hc).1
  neverRaw :=
    ⟨fun hc =>
      (forall_class (P := fun _ c => (∀ s ∈ c.supertypes, s.Converted) ∧
        ∀ t ∈ c.types, ∀ x ∈ t.parts, d.rawly x = false) hclasses hc).2,
    fun v b hb => forall_bound hbounds hb⟩
  once := fun {parent v} hv => by
    obtain ⟨b, hb, hiff⟩ := hwf.isRaw_ok hv.isDefined
    exact inheritsAlike_of_slots honce
      (hb.trans (congrArg Outcome.ok (hiff.2 ⟨v, hv⟩)))

end Declarations

theorem Ty.subst_normalForm (t : Ty) (φ : TypeVarId → Ty) :
    t.normalForm.subst φ = t.subst φ :=
  subst_subst .var φ t

namespace Resolver

open Resolve Declarations

variable {r : Resolver} {arena : Array CaptureDef}
  {ctx : Context} {t s g g' b : Ty} {id parent target : ClassId}

/-! ## One type above of each class -/

section

variable (h : r.env.WellFormed) (htop : r.env.Topmost)

include h htop

theorem eq_top_of_above (hg : ReflTransGen (r.Directly arena) r.env.top g) :
    g = r.env.top := by
  induction hg with
  | refl => rfl
  | tail _ hs ih => exact eq_top_of_directly h htop (ih ▸ hs)

/-- No type is strictly above another of its class, unless it is the top
type. -/
theorem eq_top_of_same_head (ht : r.env.Supplies id t)
    (hg : TransGen (r.Directly arena) t g) (hid : g.head? = some id) :
    g = r.env.top := by
  rcases strictly_above_class h htop ht hg with rfl | ⟨id', hid', hup⟩
  · rfl
  · obtain rfl := Option.some.inj (hid.symm.trans hid'.head?)
    exact absurd hup (h.hierarchy id)

/-- What is strictly above a type of a class is the top type or inherited, with
values put in. -/
theorem exists_inherited (ht : r.env.Supplies id t)
    (hraw : r.env.rawly t = false) (hg : TransGen (r.Directly arena) t g)
    (hparent : g.head? = some parent) :
    ∃ g₀, (r.env.Inherits id g₀ ∨ g₀ = r.env.top) ∧ g₀.head? = some parent ∧
      g = g₀.subst (r.env.chainSubst t) := by
  rcases ancestor_class h htop ht hraw hg with rfl | ⟨g₀, hg₀, rfl⟩
  · exact ⟨_, .inr rfl, hparent, rfl⟩
  · obtain ⟨-, p, hp⟩ := complete_inherited h hg₀
    obtain rfl := Option.some.inj (hparent.symm.trans (Ty.head?_subst hp _))
    exact ⟨g₀, .inl hg₀, hp, rfl⟩

/-- Two types strictly above a third, and of a class that is inherited in one
form, are equal. -/
theorem eq_of_strictly_above (halike : r.env.InheritsAlike parent)
    (ht : r.env.Supplies id t) (hraw : r.env.rawly t = false)
    (hg : TransGen (r.Directly arena) t g)
    (hg' : TransGen (r.Directly arena) t g') (hparent : g.head? = some parent)
    (hparent' : g'.head? = some parent) : g = g' := by
  obtain ⟨g₀, hg₀, hhead, rfl⟩ := exists_inherited h htop ht hraw hg hparent
  obtain ⟨g₁, hg₁, hhead', rfl⟩ := exists_inherited h htop ht hraw hg' hparent'
  rw [← Ty.subst_normalForm g₀, ← Ty.subst_normalForm g₁,
    halike id g₀ g₁ hg₀ hg₁ hhead hhead']

/-- The top type counts as inherited, so where its class is inherited in one
form, that is the form of all types of it. -/
theorem eq_top_of_strictly_above
    (halike : r.env.InheritsAlike r.env.wellKnown.object)
    (ht : r.env.Supplies id t) (hraw : r.env.rawly t = false)
    (hg : TransGen (r.Directly arena) t g)
    (hobject : g.head? = some r.env.wellKnown.object) : g = r.env.top := by
  obtain ⟨g₀, hg₀, hhead, rfl⟩ := exists_inherited h htop ht hraw hg hobject
  rw [← Ty.subst_normalForm g₀, halike id g₀ r.env.top hg₀ (.inr rfl) hhead rfl]
  rfl

/-- The same of types above a third or equal to it, where that is not of the top
class. -/
theorem eq_of_above (halike : r.env.InheritsAlike parent)
    (hid : id ≠ r.env.wellKnown.object) (ht : r.env.Supplies id t)
    (hraw : r.env.rawly t = false) (hg : ReflTransGen (r.Directly arena) t g)
    (hg' : ReflTransGen (r.Directly arena) t g')
    (hparent : g.head? = some parent)
    (hparent' : g'.head? = some parent) : g = g' := by
  have hstrict : ∀ {g}, TransGen (r.Directly arena) t g →
      g.head? = some parent →
      t.head? ≠ some parent := by
    intro g hg hparent hself
    obtain rfl := Option.some.inj (ht.head?.symm.trans hself)
    obtain rfl := eq_top_of_same_head h htop ht hg hparent
    exact hid (Option.some.inj hparent).symm
  rcases reflTransGen_iff_eq_or_transGen.1 hg with rfl | hg
  · rcases reflTransGen_iff_eq_or_transGen.1 hg' with rfl | hg'
    · rfl
    · exact absurd hparent (hstrict hg' hparent')
  · rcases reflTransGen_iff_eq_or_transGen.1 hg' with rfl | hg'
    · exact absurd hparent' (hstrict hg hparent)
    · exact eq_of_strictly_above h htop halike ht hraw hg hg' hparent hparent'

end

/-! ## Searches among types of classes -/

section

variable (h : r.env.WellFormed) (htop : r.env.Topmost)
  (hhost : r.env.hostTest = none)

include h htop hhost

omit h in
/-- From a type of the top class a search finds the type itself or nothing. -/
theorem find_from_top (ht : r.env.Supplies r.env.wellKnown.object t)
    (c : Class) (n : Nat) : r.find arena (n + 1) t c =
      .ok (if .named r.env.wellKnown.object = c then some t else none) := by
  by_cases hc : .named r.env.wellKnown.object = c
  · rw [if_pos hc, ← hc]
    exact find_self (erasure?_head ht.head?) n
  have hassign :
      ¬ r.env.assignable c (.named r.env.wellKnown.object) = true := by
    intro hassign
    obtain ⟨target, rfl, rfl | hup⟩ := named_of_assignable hhost hassign
    · exact hc rfl
    obtain rfl | ⟨next, hnext, -⟩ := ReflTransGen.cases_head hup
    · exact hc rfl
    · exact absurd hnext htop.not_extends
  rw [find, settledBy_eq (erasure?_head ht.head?), settle, if_neg hc,
    if_neg hassign, if_neg hc]
  rfl

omit h in
/-- What is found from a type of the top class is that type. -/
theorem eq_of_find_top (ht : r.env.Supplies r.env.wellKnown.object t)
    {n : Nat} {c : Class} (hg : r.find arena n t c = .ok (some g)) :
    g = t ∧ .named r.env.wellKnown.object = c := by
  have heq := find_unique (find_from_top htop hhost ht c 0) hg
  split at heq
  · next hc => exact ⟨(Option.some.inj heq).symm, hc⟩
  · cases heq

/-- The rank of the hierarchy bounds the depth of a search among types of
classes, and what is above to be found is found. -/
theorem find_reached (arena : Array CaptureDef) {rank : ClassId → Nat}
    (hrank : ∀ id parent, r.env.Extends id parent → rank parent < rank id)
    (target : ClassId) :
    ∀ depth (t : Ty) id, r.env.Supplies id t → rank id + 1 < depth →
      ∃ found, r.find arena depth t (.named target) = .ok found ∧
        ∀ g, ReflTransGen (r.Directly arena) t g →
          g.head? = some target → found ≠ none
  | depth + 1, t, id, ht, hdepth => by
      rw [find, settledBy_supplies ht, Outcome.ok_bind]
      by_cases hid : id = target
      · rw [if_pos (congrArg Class.named hid)]
        exact ⟨some t, rfl, fun _ _ _ => Option.some_ne_none t⟩
      rw [if_neg fun heq => hid (Class.named.inj heq)]
      by_cases hassign : r.env.assignable (.named target) (.named id) = true
      · obtain ⟨c, hc, habove⟩ := exists_above_eq arena h ht
        rw [if_pos hassign]
        have hask : ∀ s ∈ r.seenSupertypes c t, ∃ found,
            r.find arena depth s (.named target) = .ok found ∧
              ∀ g, ReflTransGen (r.Directly arena) s g → g.head? = some target →
                found ≠ none := by
          intro s hs
          rcases directly_of_class h ht ⟨_, habove, hs⟩ with
              rfl | ⟨parent, hparent, hext⟩
          · obtain ⟨n, rfl⟩ : ∃ n, depth = n + 1 := ⟨depth - 1, by omega⟩
            have hsupplies : r.env.Supplies r.env.wellKnown.object r.env.top :=
              .plain (h.known _ List.mem_cons_self)
            refine ⟨_, find_from_top htop hhost hsupplies _ n,
              fun g hg hhead => ?_⟩
            rw [eq_top_of_above h htop hg] at hhead
            rw [if_pos (congrArg Class.named (Option.some.inj hhead))]
            exact Option.some_ne_none _
          · have hless := hrank id parent hext
            exact find_reached arena hrank target depth s parent hparent
              (by omega)
        obtain ⟨found, hfound, hnone, -⟩ := @firstFound_ok
          (fun s => r.find arena depth s (.named target)) (r.seenSupertypes c t)
          fun s hs =>
            (hask s hs).imp fun _ => And.left
        rw [habove, Outcome.ok_bind]
        refine ⟨found, hfound, fun g hg hhead hnil => ?_⟩
        obtain rfl | ⟨s, ⟨ts, hts, hs⟩, hup⟩ := ReflTransGen.cases_head hg
        · exact hid (Option.some.inj (ht.head?.symm.trans hhead))
        obtain rfl := Outcome.ok.inj (habove.symm.trans hts)
        obtain ⟨found', hfound', hreached⟩ := hask s hs
        rw [hnone hnil s hs] at hfound'
        exact hreached g hup hhead (Outcome.ok.inj hfound').symm
      · rw [if_neg hassign]
        refine ⟨none, rfl, fun g hg hhead => ?_⟩
        obtain ⟨id', hid', hup⟩ := ancestor_of_class h htop ht hg
        obtain rfl := Option.some.inj (hhead.symm.trans hid'.head?)
        exact absurd ((assignable_named hhost _ id).2 hup) hassign

end

/-! ## In another arena -/

/-- Of types of classes and arrays the direct supertypes do not depend on the
arena. -/
theorem above_known {later : Array CaptureDef} :
    ∀ {t : Ty}, t.element.isUnknown = false →
    r.above arena t = r.above later t
  | .nominal _, _ | .parameterized _ _ _, _ => rfl
  | .genericArray t, ht => by rw [above, above, above_known (t := t) ht]

/-- Nor does what is above them. -/
theorem above_moves {I : Ty → Prop}
    (hknown : ∀ {t}, I t → t.element.isUnknown = false)
    (hdirectly : ∀ {t s}, I t → r.Directly arena t s → I s)
    (later : Array CaptureDef) (ht : I t)
    (hg : ReflTransGen (r.Directly arena) t g) :
    I g ∧ ReflTransGen (r.Directly later) t g := by
  induction hg with
  | refl => exact ⟨ht, .refl⟩
  | tail _ hs ih =>
      refine ⟨hdirectly ih.1 hs, ih.2.tail ?_⟩
      obtain ⟨ts, hts, hmem⟩ := hs
      exact ⟨ts, (above_known (hknown ih.1)).trans hts, hmem⟩

/-- A type of some class, with nothing to capture. -/
def OfClass (r : Resolver) (t : Ty) : Prop :=
  (∃ id, r.env.Supplies id t) ∧ t.Converted

theorem OfClass.directly (h : r.env.WellFormed)
    (hdeclared : r.env.DeclaresConverted) (ht : r.OfClass t)
    (hs : r.Directly arena t s) : r.OfClass s := by
  obtain ⟨⟨id, ht⟩, hconverted⟩ := ht
  constructor
  · rcases directly_of_class h ht hs with rfl | ⟨parent, hparent, -⟩
    · exact ⟨_, .plain (h.known _ List.mem_cons_self)⟩
    · exact ⟨parent, hparent⟩
  · rcases of_directly_class h ht hs with rfl | ⟨c, s₀, hc, hs₀, rfl⟩
    · trivial
    · exact converted_seen h hdeclared hconverted hc hs₀

/-- What a search finds from a type of a class is a type of a class above it,
over whatever arena, and has nothing to capture if that has not. -/
theorem of_find_class (h : r.env.WellFormed)
    (hdeclared : r.env.DeclaresConverted) (later : Array CaptureDef)
    (ht : r.env.Supplies id t) (hconverted : t.Converted) {n : Nat} {c : Class}
    (hg : r.find arena n t c = .ok (some g)) :
    ∃ id', r.env.Supplies id' g ∧ g.Converted ∧
      ReflTransGen (r.Directly later) t g ∧
      .named id' = c := by
  have hknown : ∀ {t}, r.OfClass t → t.element.isUnknown = false := by
    rintro t ⟨⟨id, ht⟩, -⟩
    cases ht <;> rfl
  obtain ⟨hup, hc⟩ := find_ancestor hg
  obtain ⟨⟨⟨id', hid'⟩, hgconverted⟩, hup⟩ :=
    above_moves hknown (OfClass.directly h hdeclared) later
      ⟨⟨id, ht⟩, hconverted⟩ hup
  refine ⟨id', hid', hgconverted, hup, ?_⟩
  exact Option.some.inj
    (Outcome.ok.inj ((erasure?_head hid'.head?).symm.trans hc))

/-- From each type between the two, a search finds what is above a type of a
class, where the class it is of is inherited in one form. -/
theorem find_above (h : r.env.WellFormed) (htop : r.env.Topmost)
    (hhost : r.env.hostTest = none) (hdeclared : r.env.DeclaresConverted)
    (halike : r.env.InheritsAlike target) (hid : id ≠ r.env.wellKnown.object)
    (ht : r.env.Supplies id t) (hraw : r.env.rawly t = false) (hs : r.OfClass s)
    (hup : ReflTransGen (r.Directly arena) t s)
    (hg : ReflTransGen (r.Directly arena) s g) (hhead : g.head? = some target)
    {depth : Nat} (hdepth : r.env.classes.size + 1 < depth) :
    r.find arena depth s (.named target) = .ok (some g) := by
  obtain ⟨⟨sid, hsid⟩, hconverted⟩ := hs
  obtain ⟨rank, hle, hrank⟩ := exists_rank_extends h.hierarchy
  have hsdepth : rank sid + 1 < depth := by
    have := hle sid
    omega
  obtain ⟨found, hfound, hreached⟩ :=
    find_reached h htop hhost arena hrank target depth s sid hsid hsdepth
  obtain ⟨g', rfl⟩ := Option.ne_none_iff_exists'.1 (hreached g hg hhead)
  obtain ⟨id', hid', -, hup', hclass⟩ :=
    of_find_class h hdeclared arena hsid hconverted hfound
  obtain rfl := Class.named.inj hclass
  rw [hfound, eq_of_above h htop halike hid ht hraw (hup.trans hup')
    (hup.trans hg) hid'.head? hhead]

/-! ## Members -/

/-- The type of a member is seen through the view that the search finds, where
the owner has nothing to capture. -/
theorem memberType_of_view (hcounted : r.env.Counted t)
    (hconverted : t.Converted) (hne : target ≠ r.env.wellKnown.object)
    {depth : Nat}
    (hview : (r.exactSupertype depth t (.named target) ctx).1 = .ok (some g))
    (declared : Ty) :
    (r.memberType depth target declared t ctx).1 =
      r.substituteThrough declared g [] := by
  have hviewAs : (r.viewAs depth target t ctx).1 = .ok (some g) := by
    rw [viewAs, capture_converted hcounted hconverted, pure_bind, bind_ok hview]
    rfl
  rw [memberType, if_neg hne, seenThrough, bind_ok hviewAs]
  rfl

/-- What a type of a class is found to be from one of its supertypes, it is
found to be itself, and a member has the same type through either, whenever the
questions are asked and however much was asked before. For that, nothing may be
declared above the top type and every class be inherited in one form. Circles
are shut out as everywhere: of classes, and of variables by their bounds, also
through arrays as in `T extends T[]`. -/
theorem upcasting_keeps_answers (h : r.env.WellFormed) (htop : r.env.Topmost)
    (hhost : r.env.hostTest = none)
    (halike : ∀ parent, r.env.InheritsAlike parent)
    (hdeclared : r.env.DeclaresConverted) (ht : r.env.Supplies id t)
    (hraw : r.env.rawly t = false) (hconverted : t.Converted)
    {ctx₁ ctx₂ : Context} (hctx : r.Reachable ctx) (hctx₁ : r.Reachable ctx₁)
    (hctx₂ : r.Reachable ctx₂) {n m depth : Nat} {between : Class}
    (hb : (r.exactSupertype n t between ctx₁).1 = .ok (some b))
    (hg : (r.exactSupertype m b (.named target) ctx₂).1 = .ok (some g))
    (hdepth : r.env.classes.size + 1 < depth) :
    (r.exactSupertype depth t (.named target) ctx).1 = .ok (some g) ∧
      ∀ declared, (r.memberType depth target declared b ctx).1 =
        (r.memberType depth target declared t ctx).1 := by
  rw [exactSupertype_eq_find hctx₁.sameButMemo] at hb
  rw [exactSupertype_eq_find hctx₂.sameButMemo] at hg
  by_cases hid : id = r.env.wellKnown.object
  · -- a type of the top class is found nowhere but at itself
    subst hid
    obtain ⟨k, rfl⟩ : ∃ k, depth = k + 1 := ⟨depth - 1, by omega⟩
    obtain ⟨rfl, -⟩ := eq_of_find_top htop hhost ht hb
    obtain ⟨rfl, hc⟩ := eq_of_find_top htop hhost ht hg
    refine ⟨?_, fun _ => rfl⟩
    rw [exactSupertype_eq_find hctx.sameButMemo, find_from_top htop hhost ht,
      if_pos hc]
  obtain ⟨mid, hmid, hbconverted, hbup, -⟩ :=
    of_find_class h hdeclared ctx.captures ht hconverted hb
  obtain ⟨last, hlast, -, hgup, hclass⟩ :=
    of_find_class h hdeclared ctx.captures hmid hbconverted hg
  obtain rfl := Class.named.inj hclass
  have hfinds : ∀ {s}, r.OfClass s →
      ReflTransGen (r.Directly ctx.captures) t s →
      ReflTransGen (r.Directly ctx.captures) s g →
      (r.exactSupertype depth s (.named last) ctx).1 =
        .ok (some g) := fun hs hup hgup =>
    (exactSupertype_eq_find hctx.sameButMemo depth _ _).trans
      (find_above h htop hhost hdeclared (halike last) hid ht hraw hs hup hgup
        hlast.head? hdepth)
  have hfromT := hfinds ⟨⟨id, ht⟩, hconverted⟩ .refl (hbup.trans hgup)
  have hfromB := hfinds ⟨⟨mid, hmid⟩, hbconverted⟩ hbup hgup
  refine ⟨hfromT, fun declared => ?_⟩
  by_cases hobject : last = r.env.wellKnown.object
  · rw [memberType, memberType, if_pos hobject, if_pos hobject]
  · rw [memberType_of_view hmid.counted hbconverted hobject hfromB,
      memberType_of_view ht.counted hconverted hobject hfromT]

end Resolver

namespace TypeStore

open Declarations

/-- A resolver over the declarations of a store, with the usual knobs and no
test of its own. -/
def resolver (s : TypeStore) : Resolver := ⟨⟨s.toDeclarations, none⟩, {}⟩

namespace Seed

/-- The first number that the core package leaves free, and those after it. -/
def free (n : Nat) : ClassId := ⟨11 + n⟩

def suit : ClassId := free 0

/-- `class Suit extends Enum<Suit> implements Comparable<Suit>`. -/
def suitEdits : List Edit :=
  [ .addClass (classDecl "p.Suit" [] (applied enum [.named suit])
      [applied comparable [.named suit]] [] []) ]

/-- `class Root`, and the top class as `class Object extends Root`. -/
def rootEdits : List Edit :=
  [ .addClass ⟨"p.Root", .ordinary, [], none, [], none, [], []⟩,
    .defineClass object
      (classDecl "java.lang.Object" [] (.named (free 0)) [] [] []) ]

/-- `interface A`, `interface I extends A<>` and `class C implements A, I`. -/
def respelledEdits : List Edit :=
  [ .addClass (interfaceDecl "p.A" [] [] []),
    .addClass (interfaceDecl "p.I" [] [applied (free 0) []] []),
    .addClass (classDecl "p.C" [] (.named object)
      [.named (free 0), .named (free 1)] [] []) ]

/-- `class C extends Object<> implements CharSequence`. -/
def topRespelledEdits : List Edit :=
  [ .addClass
      (classDecl "p.C" [] (applied object []) [.named charSequence] [] []) ]

end Seed

/-- The core package and an enumeration that repeats what it is comparable
with. -/
def suits : TypeStore := core.applyAll Seed.suitEdits

theorem suits_disciplined : suits.toDeclarations.Disciplined :=
  disciplined_of_slots (n := 5) (wellFormed_of_inOrder ClassId.index
    (by decide) (by decide) (by decide)) (by decide) (by decide) (by decide)

/-- By way of `Enum<Suit>` a `Suit` is comparable with what it says itself, and
`compareTo` takes the same. -/
theorem suit_by_way_of_enum :
    (suits.resolver.exactSupertype 14 (.named Seed.suit)
        (.named Seed.comparable) .empty).1 =
      .ok (some (Seed.applied Seed.comparable [.named Seed.suit])) ∧
    (suits.resolver.memberType 14 Seed.comparable (Seed.tv 0)
        (Seed.applied Seed.enum [.named Seed.suit]) .empty).1 =
      (suits.resolver.memberType 14 Seed.comparable (Seed.tv 0)
        (.named Seed.suit) .empty).1 := by
  have hb : (suits.resolver.exactSupertype 4 (.named Seed.suit)
        (.named Seed.enum) .empty).1 =
      .ok (some (Seed.applied Seed.enum [.named Seed.suit])) := rfl
  have hg : (suits.resolver.exactSupertype 4
      (Seed.applied Seed.enum [.named Seed.suit])
      (.named Seed.comparable) .empty).1 =
        .ok (some (Seed.applied Seed.comparable [.named Seed.suit])) := rfl
  have htop : suits.toDeclarations.Topmost := fun c hc => by
    obtain rfl := Option.some.inj hc
    rfl
  have halike :
      ∀ parent, suits.toDeclarations.InheritsAlike parent := fun parent =>
    inheritsAlike_of_slots (n := 5) (P := fun _ => True) (by decide) trivial
  have hdepth : suits.resolver.env.classes.size + 1 < 14 := by decide
  obtain ⟨hfound, hmember⟩ :=
    Resolver.upcasting_keeps_answers suits_disciplined.wellFormed htop
      rfl halike suits_disciplined.converted (.plain rfl)
      (by decide) trivial .start .start .start hb hg hdepth
  exact ⟨hfound, hmember (Seed.tv 0)⟩

/-- The core package under a class above the top class. -/
def rooted : TypeStore := core.applyAll Seed.rootEdits

/-- The core package and an interface inherited in two spellings. -/
def respelled : TypeStore := core.applyAll Seed.respelledEdits

/-- The core package and a class that respells the top type. -/
def topRespelled : TypeStore := core.applyAll Seed.topRespelledEdits

theorem rooted_disciplined : rooted.toDeclarations.Disciplined :=
  disciplined_of_slots (n := 6) (wellFormed_of_inOrder
    (fun id => if id = Seed.free 0 then 0 else id.index + 1) (by decide)
    (by decide) (by decide)) (by decide) (by decide) (by decide)

theorem respelled_disciplined : respelled.toDeclarations.Disciplined :=
  disciplined_of_slots (n := 5) (wellFormed_of_inOrder ClassId.index
    (by decide) (by decide) (by decide)) (by decide) (by decide) (by decide)

theorem topRespelled_disciplined : topRespelled.toDeclarations.Disciplined :=
  disciplined_of_slots (n := 5) (wellFormed_of_inOrder ClassId.index
    (by decide) (by decide) (by decide)) (by decide) (by decide) (by decide)

/-- Some depth suffices to find from the type `t` what it is as a `target`. -/
def Finds (s : TypeStore) (t : Ty) (target : ClassId)
    (found : Option Ty) : Prop :=
  ∃ depth, (s.resolver.exactSupertype depth t (.named target) .empty).1 =
    .ok found

/-- What is found by way of another class is not found without, where a class is
above the top class, or an interface or the top type is inherited in two
spellings. -/
theorem upcasting_changes_answers :
    (rooted.toDeclarations.Disciplined ∧
      rooted.toDeclarations.rawly (.named Seed.charSequence) = false ∧
      rooted.Finds (.named Seed.charSequence) Seed.object
        (some (.named Seed.object)) ∧
      rooted.Finds (.named Seed.object) (Seed.free 0)
        (some (.named (Seed.free 0))) ∧
      rooted.Finds (.named Seed.charSequence) (Seed.free 0) none) ∧
    (respelled.toDeclarations.Disciplined ∧
      respelled.toDeclarations.rawly (.named (Seed.free 2)) = false ∧
      respelled.Finds (.named (Seed.free 2)) (Seed.free 1)
        (some (.named (Seed.free 1))) ∧
      respelled.Finds (.named (Seed.free 1)) (Seed.free 0)
        (some (Seed.applied (Seed.free 0) [])) ∧
      respelled.Finds (.named (Seed.free 2)) (Seed.free 0)
        (some (.named (Seed.free 0)))) ∧
    (topRespelled.toDeclarations.Disciplined ∧
      topRespelled.toDeclarations.rawly (.named (Seed.free 0)) = false ∧
      topRespelled.Finds (.named (Seed.free 0)) Seed.charSequence
        (some (.named Seed.charSequence)) ∧
      topRespelled.Finds (.named Seed.charSequence) Seed.object
        (some (.named Seed.object)) ∧
      topRespelled.Finds (.named (Seed.free 0)) Seed.object
        (some (Seed.applied Seed.object []))) :=
  ⟨⟨rooted_disciplined, by decide, ⟨8, rfl⟩, ⟨8, rfl⟩, ⟨8, rfl⟩⟩,
    ⟨respelled_disciplined, by decide, ⟨8, rfl⟩, ⟨8, rfl⟩, ⟨8, rfl⟩⟩,
    ⟨topRespelled_disciplined, by decide, ⟨8, rfl⟩, ⟨8, rfl⟩, ⟨8, rfl⟩⟩⟩

end TypeStore

end GenericTypes
