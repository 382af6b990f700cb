import GenericTypes.Proofs.Ancestors
import GenericTypes.Proofs.Questions

/-!
# How often a comparison turns round

From one question to the next a comparison goes on to a part of its left side,
or, below a variable, up from its right side. Either would come to an end. The
exception is a lower bound: it is asked for whether it is below something, so
what was written on the left goes to the right, and what the search found on the
right goes to the left.

The turns that a type can lead to are counted by how deep lower bounds are
nested in it (`Ty.turns`). A turn takes one off the count of the left side, and
all is well if nothing adds to that of the right side: if no declared supertype
or bound has a lower bound in it (`DeclaresUpward`). A capture counts for as
many turns as the type it was opened for, so a type counts for no less than what
is above it (`turns_directly`), and its capture for as much as itself
(`captured_leveled`). From one question to the next the count for both sides
gets smaller, or else the left side does (`turns_follows`).
-/

namespace GenericTypes

open Relation Substitution

namespace Ty

/-! ## Counting -/

mutual

/-- How deep lower bounds are nested in the type, where `level` says it of
captures. -/
def turns (level : CaptureId → Nat) : Ty → Nat
  | .nominal _ | .var _ => 0
  | .parameterized _ args owner =>
      max (turnsList level args) (turnsOwner level owner)
  | .wildcard upper lower =>
      max (turnsList level upper) (turnsLower level lower)
  | .genericArray t => t.turns level
  | .capture i => level i

/-- The most that one of the types has. -/
def turnsList (level : CaptureId → Nat) : List Ty → Nat
  | [] => 0
  | t :: ts => max (t.turns level) (turnsList level ts)

/-- The same for lower bounds, each of which is one turn more. -/
def turnsLower (level : CaptureId → Nat) : List Ty → Nat
  | [] => 0
  | t :: ts => max (t.turns level + 1) (turnsLower level ts)

/-- The turns of an owner, if there is one. -/
def turnsOwner (level : CaptureId → Nat) : Option Ty → Nat
  | none => 0
  | some t => t.turns level

end

variable {level level' : CaptureId → Nat} {k : Nat} {t x : Ty}
  {φ : TypeVarId → Ty}

theorem turnsList_le :
    ∀ {ts : List Ty}, turnsList level ts ≤ k ↔ ∀ t ∈ ts, t.turns level ≤ k
  | [] => by simp [turnsList]
  | t :: ts => by simp [turnsList, turnsList_le]

theorem turnsLower_le :
    ∀ {ts : List Ty}, turnsLower level ts ≤ k ↔ ∀ t ∈ ts, t.turns level < k
  | [] => by simp [turnsLower]
  | t :: ts => by
      rw [turnsLower, Nat.max_le, turnsLower_le, List.forall_mem_cons]
      exact Iff.rfl

theorem turns_parameterized_le {id : ClassId} {args : List Ty}
    {owner : Option Ty} : (Ty.parameterized id args owner).turns level ≤ k ↔
      (∀ a ∈ args, a.turns level ≤ k) ∧ ∀ o, owner = some o →
      o.turns level ≤ k := by
  cases owner <;> simp [turns, turnsOwner, turnsList_le]

theorem turns_wildcard_le {upper lower : List Ty} :
    (Ty.wildcard upper lower).turns level ≤ k ↔
      (∀ u ∈ upper, u.turns level ≤ k) ∧ ∀ l ∈ lower, l.turns level < k := by
  simp [turns, turnsList_le, turnsLower_le]

theorem turns_arrayOf (t : Ty) : t.arrayOf.turns level = t.turns level := by
  cases t <;> rfl

section

variable {id : ClassId} {args upper lower : List Ty} {owner : Option Ty}

theorem turns_arg (hx : x ∈ args) :
    x.turns level ≤ (Ty.parameterized id args owner).turns level :=
  (turns_parameterized_le.1 (Nat.le_refl _)).1 x hx

theorem turns_owner (hx : owner = some x) :
    x.turns level ≤ (Ty.parameterized id args owner).turns level :=
  (turns_parameterized_le.1 (Nat.le_refl _)).2 x hx

theorem turns_upper (hx : x ∈ upper) :
    x.turns level ≤ (Ty.wildcard upper lower).turns level :=
  (turns_wildcard_le.1 (Nat.le_refl _)).1 x hx

theorem turns_lower (hx : x ∈ lower) :
    x.turns level < (Ty.wildcard upper lower).turns level :=
  (turns_wildcard_le.1 (Nat.le_refl _)).2 x hx

end

theorem turns_child (hx : x ∈ t.children) : x.turns level ≤ t.turns level := by
  cases t with
  | nominal _ | var _ | capture _ => cases hx
  | parameterized id args owner =>
      rcases List.mem_append.1 hx with hx | hx
      · exact turns_owner (Option.mem_toList.1 hx)
      · exact turns_arg hx
  | wildcard upper lower =>
      rcases List.mem_append.1 hx with hx | hx
      · exact turns_upper hx
      · exact Nat.le_of_lt (turns_lower hx)
  | genericArray t =>
      obtain rfl := List.mem_singleton.1 hx
      exact Nat.le_refl _

theorem turns_part (hx : x ∈ t.parts) : x.turns level ≤ t.turns level := by
  induction t using Ty.byChildren with
  | node t ih =>
      rcases mem_parts_iff.1 hx with rfl | ⟨c, hc, hx⟩
      · exact Nat.le_refl _
      · exact Nat.le_trans (ih c hc hx) (turns_child hc)

theorem turns_mono (h : ∀ i, .capture i ∈ t.parts → level i ≤ level' i) :
    t.turns level ≤ t.turns level' := by
  induction t using Ty.induct with
  | nominal _ | var _ => exact Nat.le_refl _
  | capture i => exact h i (mem_parts_self _)
  | parameterized id args owner ihargs ihowner =>
      refine turns_parameterized_le.2 ⟨fun a ha => ?_, fun o ho => ?_⟩
      · exact Nat.le_trans (ihargs a ha fun i hi =>
          h i (mem_parts_parameterized.2 (.inr (.inr ⟨a, ha, hi⟩))))
            (turns_arg ha)
      · exact Nat.le_trans (ihowner o ho fun i hi =>
          h i (mem_parts_parameterized.2 (.inr (.inl ⟨o, ho, hi⟩))))
            (turns_owner ho)
  | wildcard upper lower ihupper ihlower =>
      refine turns_wildcard_le.2 ⟨fun u hu => ?_, fun l hl => ?_⟩
      · exact Nat.le_trans (ihupper u hu fun i hi =>
          h i (mem_parts_wildcard.2 (.inr (.inl ⟨u, hu, hi⟩)))) (turns_upper hu)
      · exact Nat.lt_of_le_of_lt (ihlower l hl fun i hi =>
          h i (mem_parts_wildcard.2 (.inr (.inr ⟨l, hl, hi⟩)))) (turns_lower hl)
  | genericArray t ih =>
      exact ih fun i hi => h i (mem_parts_genericArray.2 (.inr hi))

theorem turns_congr (h : ∀ i, .capture i ∈ t.parts → level i = level' i) :
    t.turns level = t.turns level' :=
  Nat.le_antisymm (turns_mono fun i hi => Nat.le_of_eq (h i hi))
    (turns_mono fun i hi => Nat.le_of_eq (h i hi).symm)

/-! ## Sizes -/

theorem sizeOf_component (t : Ty) : sizeOf t < sizeOf (Ty.genericArray t) := by
  simp

theorem sizeOf_owner {id : ClassId} {args : List Ty} (o : Ty) :
    sizeOf o < sizeOf (Ty.parameterized id args (some o)) := by
  simp
  omega

theorem sizeOf_bound {id : ClassId} {args upper lower : List Ty}
    {owner : Option Ty} (harg : .wildcard upper lower ∈ args) (hx : x ∈ upper) :
    sizeOf x < sizeOf (Ty.parameterized id args owner) := by
  have hbound := List.sizeOf_lt_of_mem hx
  have hwildcard := List.sizeOf_lt_of_mem harg
  simp at hwildcard ⊢
  omega

/-! ## Types without lower bounds -/

/-- The lower bounds of what the type stands for, if it is a wildcard or a
capture. -/
def lowerBounds (arena : Array CaptureDef) : Ty → List Ty
  | .wildcard _ lower => lower
  | .capture i => (arena[i.index]?.map CaptureDef.lower).getD []
  | .nominal _ | .parameterized _ _ _ | .var _ | .genericArray _ => []

/-- Nothing in the type has a lower bound. -/
def Upward (arena : Array CaptureDef) (t : Ty) : Prop :=
  ∀ x ∈ t.parts, x.lowerBounds arena = []

variable {arena : Array CaptureDef}

theorem Upward.part (h : t.Upward arena) (hx : x ∈ t.parts) : x.Upward arena :=
  fun y hy => h y (mem_parts_trans hy hx)

theorem Upward.wildcard {upper lower : List Ty} (h : t.Upward arena)
    (hx : .wildcard upper lower ∈ t.parts) : lower = [] := h _ hx

/-- Induction on a type without lower bounds or captures, as declared types may
be. -/
theorem Upward.induct {P : Ty → Prop} (nominal : ∀ c, P (.nominal c))
    (var : ∀ v, P (.var v))
    (parameterized : ∀ id args owner, (∀ a ∈ args, P a) →
      (∀ o, owner = some o → P o) →
      P (.parameterized id args owner))
    (wildcard : ∀ upper, (∀ u ∈ upper, P u) → P (.wildcard upper []))
    (genericArray : ∀ t, P t → P (.genericArray t)) (ht : t.Upward arena)
    (hcaptures : ∀ i, .capture i ∉ t.parts) : P t := by
  have hpart : ∀ {s t : Ty}, s ∈ t.parts → t.Upward arena →
      (∀ i, .capture i ∉ t.parts) →
      s.Upward arena ∧ ∀ i, .capture i ∉ s.parts :=
    fun hs ht hcaptures =>
      ⟨ht.part hs, fun i hi => hcaptures i (mem_parts_trans hi hs)⟩
  induction t using Ty.induct with
  | nominal c => exact nominal c
  | var v => exact var v
  | capture i => exact absurd (mem_parts_self _) (hcaptures i)
  | parameterized id args owner ihargs ihowner =>
      refine parameterized id args owner (fun a ha => ?_) fun o ho => ?_
      · obtain ⟨hup, hnone⟩ := hpart (arg_mem_parts ha) ht hcaptures
        exact ihargs a ha hup hnone
      · obtain ⟨hup, hnone⟩ := hpart
          (mem_parts_parameterized.2 (.inr (.inl ⟨o, ho, mem_parts_self o⟩))) ht
          hcaptures
        exact ihowner o ho hup hnone
  | wildcard upper lower ihupper _ =>
      obtain rfl := ht.wildcard (mem_parts_self _)
      refine wildcard upper fun u hu => ?_
      obtain ⟨hup, hnone⟩ := hpart (upper_mem_parts hu) ht hcaptures
      exact ihupper u hu hup hnone
  | genericArray t ih =>
      obtain ⟨hup, hnone⟩ := hpart (component_mem_parts t) ht hcaptures
      exact genericArray t (ih hup hnone)

/-- Such a type has no turns, -/
theorem turns_upward (ht : t.Upward arena)
    (hcaptures : ∀ i, .capture i ∉ t.parts) : t.turns level ≤ 0 := by
  refine Upward.induct (P := fun t => t.turns level ≤ 0)
    (fun _ => Nat.le_refl _) (fun _ => Nat.le_refl _) ?_ ?_
    (fun _ ht => ht) ht hcaptures
  · exact fun _ _ _ hargs howner => turns_parameterized_le.2 ⟨hargs, howner⟩
  · exact fun _ hupper => turns_wildcard_le.2 ⟨hupper, fun _ hl => nomatch hl⟩

/-- and with values put in no more than these have. -/
theorem turns_subst (ht : t.Upward arena)
    (hcaptures : ∀ i, .capture i ∉ t.parts) (hφ : ∀ v, (φ v).turns level ≤ k) :
    (t.subst φ).turns level ≤ k := by
  refine Upward.induct (P := fun t => (t.subst φ).turns level ≤ k)
    (fun _ => Nat.zero_le _) hφ ?_ ?_ ?_ ht hcaptures
  · intro id args owner hargs howner
    simp only [Ty.subst, Ty.substList_eq_map, Ty.substOwner_eq_map]
    refine turns_parameterized_le.2 ⟨List.forall_mem_map.2 hargs,
      fun s hs => ?_⟩
    obtain ⟨o, ho, rfl⟩ := Option.map_eq_some_iff.1 hs
    exact howner o ho
  · intro upper hupper
    simp only [Ty.subst, Ty.substList_eq_map]
    exact turns_wildcard_le.2
      ⟨List.forall_mem_map.2 hupper, fun _ hl => absurd hl List.not_mem_nil⟩
  · intro t ht
    rw [Ty.subst, turns_arrayOf]
    exact ht

end Ty

namespace Declarations

/-- No declared supertype and no bound of a variable has a lower bound in it. -/
structure DeclaresUpward (d : Declarations) : Prop where
  supertypes : ∀ id c, d.class? id = some c → ∀ s ∈ c.supertypes, s.Upward #[]
  bounds : ∀ v, ∀ b ∈ d.boundsOf v, b.Upward #[]

theorem Complete.no_captures {d : Declarations} {t : Ty} (h : d.Complete 0 t)
    (i : CaptureId) : .capture i ∉ t.parts :=
  fun hi => Nat.not_lt_zero _ (h _ hi)

end Declarations

namespace Resolver

/-! ## Levels of captures -/

/-- Each capture counts for as many turns as its bounds lead to, and one more
for a lower one. -/
structure Leveled (level : CaptureId → Nat)
    (arena : Array CaptureDef) : Prop where
  upper : ∀ (i : Nat) c, arena[i]? = some c →
    ∀ u ∈ c.upper, u.turns level ≤ level ⟨i⟩
  lower : ∀ (i : Nat) c, arena[i]? = some c →
    ∀ l ∈ c.lower, l.turns level < level ⟨i⟩

/-- The level `k` for every capture from the `n`-th on. -/
def raise (level : CaptureId → Nat) (n k : Nat) (i : CaptureId) : Nat :=
  if i.index < n then level i else k

theorem raise_new (level : CaptureId → Nat) {n i : Nat} (k : Nat) (hi : n ≤ i) :
    raise level n k ⟨i⟩ = k :=
  if_neg (Nat.not_lt.2 hi)

open Declarations

variable {r : Resolver} {arena later : Array CaptureDef}
  {level level' : CaptureId → Nat} {t s : Ty} {n k : Nat}

theorem turns_agree {d : Declarations} (ht : d.Complete n t)
    (h : ∀ i : CaptureId, i.index < n → level' i = level i) :
    t.turns level' = t.turns level :=
  Ty.turns_congr fun i hi => h i (ht _ hi)

theorem Leveled.agree (harena : r.Sound arena) (hlev : Leveled level arena)
    (h : ∀ i : CaptureId, i.index < arena.size → level' i = level i) :
    Leveled level' arena := by
  have hlt : ∀ {i : Nat} {c : CaptureDef}, arena[i]? = some c →
      i < arena.size :=
    fun hc => (Array.getElem?_eq_some_iff.1 hc).1
  constructor
  · intro i c hc u hu
    have hreg := ((harena.upper i c hc).2 u hu).1
    rw [turns_agree hreg.complete h, h ⟨i⟩ (hlt hc)]
    exact hlev.upper i c hc u hu
  · intro i c hc l hl
    rw [turns_agree (harena.lower i c hc l hl).complete h, h ⟨i⟩ (hlt hc)]
    exact hlev.lower i c hc l hl

/-- What a level puts in for a variable is one of its arguments, or written in
its owner. -/
theorem turns_levelSubst_le {id : ClassId} {args : List Ty} {owner : Option Ty}
    (hargs : ∀ a ∈ args, a.turns level ≤ k)
    (howner : ∀ o, owner = some o → o.turns level ≤ k) (v : TypeVarId) :
    (r.env.levelSubst id args owner v).turns level ≤ k := by
  rw [levelSubst]
  cases hown : lastValue (r.env.paramsOf id) args v with
  | some a => exact hargs a (mem_of_lastValue hown).2
  | none =>
      cases owner with
      | none => exact Nat.zero_le _
      | some o =>
          rw [Option.none_or, Option.bind_some]
          cases hchain : r.env.chainValue o v with
          | none => exact Nat.zero_le _
          | some a =>
              have ha : a ∈ o.parts :=
                parts_chainValue hchain (Ty.mem_parts_self a)
              exact Nat.le_trans (Ty.turns_part ha) (howner o rfl)

section

variable (h : r.env.Founded) (hup : r.env.DeclaresUpward)

include h hup

theorem turns_seen {id : ClassId} {c : ClassDecl} {s₀ : Ty}
    (hc : r.env.class? id = some c) (hs₀ : s₀ ∈ c.supertypes) :
    (seen r.env.toDeclarations t s₀).turns level ≤ t.turns level := by
  obtain ⟨hhead, hproper⟩ := h.wellFormed.supertypes hc s₀ hs₀
  obtain ⟨parent, hparent⟩ := Option.isSome_iff_exists.1 hhead
  unfold seen
  split
  · rw [erase_head hparent]
    exact Nat.zero_le _
  · refine Ty.turns_subst (hup.supertypes id c hc s₀ hs₀)
      hproper.complete.no_captures fun v => ?_
    rw [chainSubst]
    cases hv : r.env.chainValue t v with
    | some a => exact Ty.turns_part (parts_chainValue hv (Ty.mem_parts_self a))
    | none => exact Nat.zero_le _

/-- What is above a type has no more turns than it. -/
theorem turns_directly (hlev : Leveled level arena)
    (ht : r.env.Regular arena.size t) (hs : r.Directly arena t s) :
    s.turns level ≤ t.turns level := by
  have hclass : ∀ {id} {t s : Ty}, r.env.Supplies id t → r.Directly arena t s →
      s.turns level ≤ t.turns level := by
    intro id t s hsupplies hs
    rcases of_directly_class h.wellFormed hsupplies hs with
        rfl | ⟨c, s₀, hc, hs₀, rfl⟩
    · exact Nat.zero_le _
    · exact turns_seen h hup hc hs₀
  have harray : ∀ {t k s : Ty}, t.component? = some k →
      k.turns level ≤ t.turns level →
      r.Directly arena t s →
      (∀ y, r.Directly arena k y → y.turns level ≤ k.turns level) →
      s.turns level ≤ t.turns level := by
    intro t k s hk hle hs hcomponent
    rcases of_directly_array hk hs with ⟨y, hy, rfl⟩ | ⟨top, -, rfl⟩
    · rw [Ty.turns_arrayOf]
      exact Nat.le_trans (hcomponent y hy) hle
    · exact Nat.zero_le _
  induction t using Ty.induct generalizing s with
  | nominal c =>
      have hdef : r.env.Defines c := ht.complete.fits
      clear ht
      induction c generalizing s with
      | named id => exact hclass (.plain hdef) hs
      | primitive p =>
          exact absurd (isPrimitive_of_directly hs) Bool.noConfusion
      | array c ih => exact harray rfl (Nat.le_refl _) hs fun y hy => ih hy hdef
  | parameterized id args owner _ _ =>
      exact hclass (ht.complete.supplies rfl) hs
  | genericArray k ih =>
      exact harray rfl (Nat.le_refl _) hs fun y hy => ih ht.component hy
  | wildcard upper lower _ _ =>
      obtain ⟨ts, hts, hs⟩ := hs
      obtain rfl := Outcome.ok.inj hts
      exact Ty.turns_upper hs
  | capture i =>
      obtain ⟨ts, hts, hs⟩ := hs
      have hc :=
        Array.getElem?_eq_getElem (ht.complete.fits : i.index < arena.size)
      rw [Resolver.above, hc] at hts
      obtain rfl := Outcome.ok.inj hts
      exact hlev.upper i.index _ hc s hs
  | var v =>
      obtain ⟨ts, hts, hs⟩ := hs
      obtain ⟨p, hp⟩ := ht.complete.fits
      obtain rfl := Outcome.ok.inj ((above_bounds arena hp).symm.trans hts)
      split at hs
      · rw [List.mem_singleton.1 hs]
        exact Nat.zero_le _
      · replace hs := mem_boundsOf_iff.2 ⟨_, hp, hs⟩
        exact Ty.turns_upward (hup.bounds v s hs)
          (h.wellFormed.bounds v s hs).complete.no_captures

theorem turns_above (harena : r.Sound arena) (hlev : Leveled level arena)
    (ht : r.env.Regular arena.size t)
    (hs : ReflTransGen (r.Directly arena) t s) :
    s.turns level ≤ t.turns level := by
  induction hs with
  | refl => exact Nat.le_refl _
  | tail hs hdirect ih =>
      exact Nat.le_trans
        (turns_directly h hup hlev (harena.above_all h ht hs) hdirect) ih

theorem Level.leveled {id : ClassId} {args : List Ty} {owner : Option Ty}
    (hlevel : r.Level arena later id args owner) (hlev : Leveled level arena)
    (hnew : ∀ i, arena.size ≤ i → level ⟨i⟩ = k)
    (hargs : ∀ a ∈ args, a.turns level ≤ k)
    (howner : ∀ o, owner = some o → o.turns level ≤ k) : Leveled level later ∧
      (Ty.parameterized id (numberWildcards arena.size args) owner).turns
        level ≤ k := by
  have hnumbered : ∀ a ∈ numberWildcards arena.size args,
      a.turns level ≤ k := by
    intro a ha
    rcases mem_numberWildcards ha with ⟨i, rfl⟩ | ⟨ha, -⟩
    · exact Nat.le_of_eq (hnew _ (Nat.le_add_right _ _))
    · exact hargs a ha
  have hvalue : ∀ v,
      (r.env.levelSubst id (numberWildcards arena.size args) owner v).turns
        level ≤ k :=
    turns_levelSubst_le hnumbered howner
  have hadded : ∀ (i : Nat) c, later[i]? = some c → arena[i]? = some c ∨
        level ⟨i⟩ = k ∧
      ∃ w ∈ wildcardsFor (r.env.paramsOf id) args,
        c = r.settled (r.env.levelSubst id (numberWildcards arena.size args)
          owner) w := by
    intro i c hc
    by_cases hi : i < arena.size
    · have hold := Array.getElem?_eq_getElem hi
      rw [hlevel.grows i _ hold] at hc
      exact .inl (hold.trans hc)
    · rcases hlevel.mem_later hc with hold | hw
      · exact .inl hold
      · exact .inr ⟨hnew i (Nat.le_of_not_lt hi), hw⟩
  have hwildcard : ∀ w ∈ wildcardsFor (r.env.paramsOf id) args,
      (∀ u ∈ w.2.upper, u.turns level ≤ k) ∧
        ∀ l ∈ w.2.lower, l.turns level < k :=
    fun w hw => Ty.turns_wildcard_le.1 (hargs _ (mem_wildcardsFor hw).2)
  refine ⟨⟨fun i c hc u hu => ?_, fun i c hc l hl => ?_⟩,
    Ty.turns_parameterized_le.2 ⟨hnumbered, howner⟩⟩
  · rcases hadded i c hc with hold | ⟨hi, w, hw, rfl⟩
    · exact hlev.upper i c hold u hu
    · rw [hi]
      rcases mem_mergeBounds hu with hu | hu | rfl
      · obtain ⟨b, hb, rfl⟩ := List.mem_map.1 hu
        exact Ty.turns_subst (hup.bounds w.1 b hb)
          (h.wellFormed.bounds w.1 b hb).complete.no_captures hvalue
      · exact (hwildcard w hw).1 u hu
      · exact Nat.zero_le _
  · rcases hadded i c hc with hold | ⟨hi, w, hw, rfl⟩
    · exact hlev.lower i c hold l hl
    · rw [hi]
      exact (hwildcard w hw).2 l hl

/-- If new captures count for as many turns as the type they are opened for, its
capture has no more than the type. -/
theorem captured_leveled :
    ∀ {t : Ty} {arena later : Array CaptureDef}, r.Sound arena →
    r.env.Regular arena.size t → Leveled level arena →
    (∀ i, arena.size ≤ i → level ⟨i⟩ = k) → t.turns level ≤ k →
    later.toList = arena.toList ++ (r.captured arena.size t).2 →
    Leveled level later ∧ (r.captured arena.size t).1.turns level ≤ k
  | .parameterized id args (some owner), arena, later, harena, ht, hlev, hnew,
    hturns, hlater => by
      obtain ⟨hargs, howner⟩ := Ty.turns_parameterized_le.1 hturns
      -- the arena between: the owner is captured, the arguments are not
      let between := (arena.toList ++ (r.captured arena.size owner).2).toArray
      obtain ⟨hsound, howner'⟩ : r.Sound between ∧
          r.env.Regular between.size (r.captured arena.size owner).1 :=
        captured_sound h harena ht.owner rfl
      obtain ⟨hlev', hturns'⟩ : Leveled level between ∧
          (r.captured arena.size owner).1.turns level ≤ k :=
        captured_leveled harena ht.owner hlev hnew (howner owner rfl) rfl
      obtain ⟨hlevel, heq⟩ := level_of_member ht rfl howner' hlater
      rw [heq]
      have hbetween : between.toList = arena.toList ++
          (r.captured arena.size owner).2 := rfl
      have hsize := (grows_of_append hbetween).size_le
      refine hlevel.leveled h hup hlev'
        (fun i hi => hnew i (Nat.le_trans hsize hi)) hargs fun o ho => ?_
      obtain rfl := Option.some.inj ho
      exact hturns'
  | .parameterized id args none, arena, later, harena, ht, hlev, hnew,
    hturns, hlater => by
      have hlevel : r.Level arena later id args none :=
        ⟨fun a ha => ht.arg ha, (fun o ho => nomatch ho), hlater⟩
      exact hlevel.leveled h hup hlev hnew
        (Ty.turns_parameterized_le.1 hturns).1 fun o ho => nomatch ho
  | .nominal _, arena, later, _, _, hlev, _, hturns, hlater
  | .var _, arena, later, _, _, hlev, _, hturns, hlater
  | .wildcard _ _, arena, later, _, _, hlev, _, hturns, hlater
  | .genericArray _, arena, later, _, _, hlev, _, hturns, hlater
  | .capture _, arena, later, _, _, hlev, _, hturns, hlater => by
      obtain rfl : later = arena :=
        Array.toList_inj.1 (hlater.trans (List.append_nil _))
      exact ⟨hlev, hturns⟩

/-- Capturing a type in an arena with levels, the new captures being given the
turns of the type. -/
theorem captured_raised (harena : r.Sound arena) (hlev : Leveled level arena)
    (ht : r.env.Regular arena.size t)
    (hlater : later.toList = arena.toList ++ (r.captured arena.size t).2) :
    Leveled (raise level arena.size (t.turns level)) later ∧
      (r.captured arena.size t).1.turns
          (raise level arena.size (t.turns level)) ≤
        t.turns level := by
  have hold : ∀ i : CaptureId, i.index < arena.size →
      raise level arena.size (t.turns level) i = level i :=
      fun i hi => if_pos hi
  refine captured_leveled h hup harena ht (hlev.agree harena hold)
    (fun i hi => raise_new level _ hi) ?_ hlater
  rw [turns_agree ht.complete hold]

theorem Builds.leveled (hbuilds : r.Builds arena later) (harena : r.Sound arena)
    (hlev : Leveled level arena) : ∃ level', Leveled level' later ∧
      ∀ i : CaptureId, i.index < arena.size → level' i = level i := by
  induction hbuilds with
  | refl => exact ⟨level, hlev, fun _ _ => rfl⟩
  | @capture between later t hbuilds ht hlater ih =>
      obtain ⟨level', hlev', hagree⟩ := ih
      refine ⟨_,
        (captured_raised h hup (hbuilds.sound h harena) hlev' ht hlater).1,
        fun i hi => ?_⟩
      rw [← hagree i hi]
      exact if_pos (Nat.lt_of_lt_of_le hi hbuilds.grows.size_le)

end

/-! ## Questions -/

/-- Comparing a view leads to fewer turns, or to no more and a smaller left
side. -/
theorem turns_compares {sup g : Ty} (hq : Plan.Compares sup g s t) :
    s.turns level + t.turns level < sup.turns level + g.turns level ∨
      s.turns level + t.turns level ≤ sup.turns level + g.turns level ∧
      sizeOf s < sizeOf sup := by
  cases hq with
  | component k k' => exact .inr ⟨Nat.le_refl _, Ty.sizeOf_component s⟩
  | owner o o' =>
      exact .inr ⟨Nat.add_le_add (Ty.turns_owner rfl) (Ty.turns_owner rfl),
        Ty.sizeOf_owner s⟩
  | upper hpair hu =>
      obtain ⟨hleft, hright⟩ := List.of_mem_zip hpair
      refine .inr ⟨Nat.add_le_add ?_ (Ty.turns_arg hright),
        Ty.sizeOf_bound hleft hu⟩
      exact Nat.le_trans (Ty.turns_upper hu) (Ty.turns_arg hleft)
  | lower hpair hl =>
      obtain ⟨hleft, hright⟩ := List.of_mem_zip hpair
      left
      rw [Nat.add_comm]
      refine Nat.add_lt_add_of_lt_of_le ?_ (Ty.turns_arg hright)
      exact Nat.lt_of_lt_of_le (Ty.turns_lower hl) (Ty.turns_arg hleft)

section

variable (h : r.env.Founded) (hup : r.env.DeclaresUpward)

include h hup

/-- What follows from a question on no variable leads to fewer turns, or to no
more and has a smaller left side. -/
theorem turns_follows {sup sub : Ty} (harena : r.Sound arena)
    (hlev : Leveled level arena) (hsup : r.env.Regular arena.size sup)
    (hsub : r.env.Regular arena.size sub) (hvar : ∀ v, sup ≠ .var v)
    (hfollows : r.Follows arena sup sub later s t) :
    ∃ level', Leveled level' later ∧
      (s.turns level' + t.turns level' < sup.turns level + sub.turns level ∨
        s.turns level' + t.turns level' ≤ sup.turns level + sub.turns level ∧
          sizeOf s < sizeOf sup) := by
  cases hfollows with
  | lower _ hc hl =>
      exact ⟨level, hlev,
        .inl (Nat.add_lt_add_right (hlev.lower _ _ hc s hl) _)⟩
  | bound v _ => exact absurd rfl (hvar v)
  | @view _ _ g _ _ _ hcaptured habove hcompares =>
      obtain ⟨hlater, hregular⟩ := captured_sound h harena hsub hcaptured
      obtain ⟨hlev', hturns⟩ := captured_raised h hup harena hlev hsub hcaptured
      refine ⟨_, hlev', ?_⟩
      have hg :=
        Nat.le_trans (turns_above h hup hlater hlev' hregular habove) hturns
      have hold : ∀ i : CaptureId, i.index < arena.size →
          raise level arena.size (sub.turns level) i = level i :=
          fun i hi => if_pos hi
      rw [← turns_agree hsup.complete hold]
      rcases turns_compares hcompares with hless | ⟨hle, hless⟩
      · exact .inl (Nat.lt_of_lt_of_le hless (Nat.add_le_add_left hg _))
      · exact .inr ⟨Nat.le_trans hle (Nat.add_le_add_left hg _), hless⟩

end

end Resolver

end GenericTypes
