import GenericTypes.Proofs.Regular
import GenericTypes.Proofs.Conversion
import GenericTypes.TypeStore.Seeded

/-!
# Checking declarations

Whether a part of a type fits is decidable, since what a class uses can be
listed (`uses_iff`). With that, every condition on well-formed declarations that
is said of each class, member or bound in turn is decided by going through them;
only for the three that forbid circles does one have to point at numbers that
fall. In a store that was filled in order, variables being bounded by earlier
ones, the numbers handed out will do, and then all of it is a check of one slot
after the other (`wellFormed_of_inOrder`).
-/

namespace GenericTypes

namespace Declarations

variable {d : Declarations} {id : ClassId} {v : TypeVarId}

/-- The types that an instance of a class mentions, with the variables that are
not its own affair. -/
def mentioned (d : Declarations) (c : ClassDecl) : List (Ty × List TypeVarId) :=
  (c.supertypes ++ c.typeParams.flatMap d.boundsOf ++
      (c.fields.filter fun f => !f.isStatic).map FieldDecl.type).map (·, []) ++
    (c.methods.filter fun m => !m.isStatic).flatMap
      fun m => m.types.map (·, m.typeParams)

/-- The variables that a class uses. -/
def usedVars (d : Declarations) (id : ClassId) : List TypeVarId :=
  match d.class? id with
  | some c => (d.mentioned c).flatMap fun m => m.1.vars.filter fun v => v ∉ m.2
  | none => []

theorem uses_iff_mentioned {c : ClassDecl} (hc : d.class? id = some c) :
    d.Uses id v ↔ ∃ t own, (t, own) ∈ d.mentioned c ∧
      .var v ∈ t.parts ∧ v ∉ own := by
  have hfield : ∀ {f : FieldDecl}, (f ∈ c.fields.filter fun f => !f.isStatic) ↔
      f ∈ c.fields ∧ f.isStatic = false := by simp
  have hmethod : ∀ {m : MethodDecl},
        (m ∈ c.methods.filter fun m => !m.isStatic) ↔
      m ∈ c.methods ∧ m.isStatic = false := by simp
  constructor
  · intro h
    cases h with
    | supertype hc' hs hv =>
        obtain rfl := Option.some.inj (hc.symm.trans hc')
        exact ⟨_, [], List.mem_append_left _ (List.mem_map_of_mem
          (List.mem_append_left _ (List.mem_append_left _ hs))), hv,
          List.not_mem_nil⟩
    | bound hc' hw hb hv =>
        obtain rfl := Option.some.inj (hc.symm.trans hc')
        exact ⟨_, [], List.mem_append_left _ (List.mem_map_of_mem
          (List.mem_append_left _ (List.mem_append_right _
            (List.mem_flatMap.2 ⟨_, hw, hb⟩)))), hv, List.not_mem_nil⟩
    | field hc' hf hstatic hv =>
        obtain rfl := Option.some.inj (hc.symm.trans hc')
        exact ⟨_, [], List.mem_append_left _ (List.mem_map_of_mem
          (List.mem_append_right _
            (List.mem_map_of_mem (hfield.2 ⟨hf, hstatic⟩)))), hv,
          List.not_mem_nil⟩
    | method hc' hm hstatic hown ht hv =>
        obtain rfl := Option.some.inj (hc.symm.trans hc')
        exact ⟨_, _, List.mem_append_right _ (List.mem_flatMap.2
          ⟨_, hmethod.2 ⟨hm, hstatic⟩, List.mem_map_of_mem ht⟩), hv, hown⟩
  · rintro ⟨t, own, ht, hv, hown⟩
    rcases List.mem_append.1 ht with ht | ht
    · obtain ⟨s, hs, heq⟩ := List.mem_map.1 ht
      obtain ⟨rfl, rfl⟩ := Prod.mk.inj heq
      rcases List.mem_append.1 hs with hs | hs
      · rcases List.mem_append.1 hs with hs | hs
        · exact .supertype hc hs hv
        · obtain ⟨w, hw, hb⟩ := List.mem_flatMap.1 hs
          exact .bound hc hw hb hv
      · obtain ⟨f, hf, rfl⟩ := List.mem_map.1 hs
        obtain ⟨hf, hstatic⟩ := hfield.1 hf
        exact .field hc hf hstatic hv
    · obtain ⟨m, hm, ht⟩ := List.mem_flatMap.1 ht
      obtain ⟨s, hs, heq⟩ := List.mem_map.1 ht
      obtain ⟨rfl, rfl⟩ := Prod.mk.inj heq
      obtain ⟨hm, hstatic⟩ := hmethod.1 hm
      exact .method hc hm hstatic hown hs hv

theorem Uses.source (h : d.Uses id v) : ∃ c, d.class? id = some c := by
  cases h with
  | supertype hc _ _ | bound hc _ _ _ | field hc _ _ _ | method hc _ _ _ _ _ =>
      exact ⟨_, hc⟩

theorem uses_iff : d.Uses id v ↔ v ∈ d.usedVars id := by
  unfold usedVars
  cases hc : d.class? id with
  | none =>
      refine iff_of_false (fun h => ?_) List.not_mem_nil
      obtain ⟨c, hc'⟩ := h.source
      rw [hc] at hc'
      cases hc'
  | some c =>
      rw [uses_iff_mentioned hc, List.mem_flatMap]
      constructor
      · rintro ⟨t, own, ht, hv, hown⟩
        exact ⟨(t, own), ht,
          List.mem_filter.2 ⟨Ty.mem_vars.2 hv, decide_eq_true hown⟩⟩
      · rintro ⟨⟨t, own⟩, ht, hv⟩
        obtain ⟨hv, hown⟩ := List.mem_filter.1 hv
        exact ⟨t, own, ht, Ty.mem_vars.1 hv, of_decide_eq_true hown⟩

/-! ## Deciding -/

instance decidableDefines (d : Declarations) : ∀ c, Decidable (d.Defines c)
  | .named id => inferInstanceAs (Decidable (d.isDefined id = true))
  | .primitive _ => inferInstanceAs (Decidable True)
  | .array c => decidableDefines d c

instance decidableFits (d : Declarations) (n : Nat) :
    ∀ t, Decidable (d.Fits n t)
  | .nominal c => decidableDefines d c
  | .parameterized id args owner =>
      decidable_of_iff
        ((∃ c ∈ d.class? id, c.typeParams.length = args.length) ∧
          (∀ v ∈ d.usedVars id,
            v ∈ d.chainVars (.parameterized id args owner)) ∧
          ∀ o ∈ owner, o.head?.isSome)
        (and_congr Iff.rfl (and_congr
          (forall_congr' fun _ => imp_congr uses_iff.symm Iff.rfl) Iff.rfl))
  | .var v => decidable_of_iff (d.typeParam? v).isSome Option.isSome_iff_exists
  | .capture i => inferInstanceAs (Decidable (i.index < n))
  | .wildcard _ _ | .genericArray _ => inferInstanceAs (Decidable True)

instance decidablePlaced : ∀ t, Decidable (Placed t)
  | .wildcard upper lower =>
      inferInstanceAs (Decidable (∀ b ∈ upper ++ lower, b.isWildcard = false))
  | .genericArray t => inferInstanceAs (Decidable (t.isWildcard = false))
  | .nominal _ | .parameterized _ _ _ | .var _ | .capture _ =>
      inferInstanceAs (Decidable True)

instance decidableComplete (d : Declarations) (n : Nat) (t : Ty) :
    Decidable (d.Complete n t) :=
  inferInstanceAs (Decidable (∀ x ∈ t.parts, d.Fits n x))

instance decidableProper (d : Declarations) (n : Nat) (t : Ty) :
    Decidable (d.Proper n t) :=
  decidable_of_iff (d.Complete n t ∧ (∀ x ∈ t.parts, Placed x) ∧
      t.isWildcard = false)
    ⟨fun h => ⟨h.1, h.2.1, h.2.2⟩,
      fun h => ⟨h.complete, h.placed, h.notWildcard⟩⟩

instance decidableDocumented : ∀ t : Ty, Decidable t.Documented
  | .parameterized _ args _ =>
      inferInstanceAs (Decidable (∀ a ∈ args, a.isPrimitive = false))
  | .wildcard upper lower =>
      inferInstanceAs (Decidable (upper ≠ [] ∧ lower.length ≤ 1 ∧
        ∀ b ∈ upper ++ lower, b.isPrimitive = false))
  | .nominal _ | .var _ | .genericArray _ | .capture _ =>
      inferInstanceAs (Decidable True)

instance decidableRegular (d : Declarations) (n : Nat) (t : Ty) :
    Decidable (d.Regular n t) :=
  decidable_of_iff (d.Complete n t ∧ ∀ x ∈ t.parts, x.Documented)
    ⟨fun h => ⟨h.1, h.2⟩, fun h => ⟨h.complete, h.documented⟩⟩

instance decidableConverted : ∀ t : Ty, Decidable t.Converted
  | .parameterized _ args (some owner) =>
      have := decidableConverted owner
      inferInstanceAs (Decidable ((∀ a ∈ args, a.isWildcard = false) ∧
        owner.Converted))
  | .parameterized _ args none =>
      inferInstanceAs (Decidable (∀ a ∈ args, a.isWildcard = false))
  | .nominal _ | .var _ | .wildcard _ _ | .genericArray _ | .capture _ =>
      inferInstanceAs (Decidable True)

/-- What holds of every class slot holds of every class. -/
theorem forall_class {P : ClassId → ClassDecl → Prop}
    (h : ∀ i < d.classes.size, ∀ c ∈ d.class? ⟨i⟩, P ⟨i⟩ c) {id : ClassId}
    {c : ClassDecl} (hc : d.class? id = some c) : P id c :=
  h id.index (index_lt_of_class? hc) c hc

/-- What holds of the bounds in every slot holds of every bound. -/
theorem forall_bound {P : Ty → Prop}
    (h : ∀ i < d.typeParams.size, ∀ p ∈ d.typeParam? ⟨i⟩, ∀ b ∈ p.upperBounds,
      P b) {b : Ty}
    (hb : b ∈ d.boundsOf v) : P b := by
  obtain ⟨p, hp, hb⟩ := mem_boundsOf_iff.1 hb
  exact h v.index (Array.getElem?_eq_some_iff.1 hp).1 p hp b hb

/-! ## Declarations filled in order -/

/-- The variables in scope of a class, looking at no more than `fuel`
classes. -/
def scopeWithin (d : Declarations) : Nat → ClassId → List TypeVarId
  | 0, _ => []
  | fuel + 1, id =>
      match d.class? id with
      | some c =>
          c.typeParams ++ c.enclosing.toList.flatMap (d.scopeWithin fuel)
      | none => []

theorem inScope_of_mem_scopeWithin : ∀ {fuel : Nat} {id : ClassId},
    v ∈ d.scopeWithin fuel id → d.InScope id v
  | fuel + 1, id, hv => by
      rw [scopeWithin] at hv
      split at hv
      · next c hc =>
          rcases List.mem_append.1 hv with hv | hv
          · exact .own hc hv
          · obtain ⟨outer, houter, hv⟩ := List.mem_flatMap.1 hv
            exact .outer ⟨c, hc, Option.mem_toList.1 houter⟩
              (inScope_of_mem_scopeWithin hv)
      · cases hv

/-- What is asked of one class: all it mentions is in order, it uses no
variables but those in scope, and its rank is higher than those of the class
around it and of the classes it is declared under. -/
def ClassInOrder (d : Declarations) (rank : ClassId → Nat) (id : ClassId)
    (c : ClassDecl) : Prop :=
  (∀ outer ∈ c.enclosing, d.isDefined outer ∧ rank outer < rank id) ∧
    (∀ s ∈ c.supertypes, s.head?.isSome ∧ d.Proper 0 s) ∧
    (∀ v ∈ c.typeParams, d.Fits 0 (.var v)) ∧
    (∀ f ∈ c.fields, d.Proper 0 f.type) ∧
    (∀ m ∈ c.methods, (∀ v ∈ m.typeParams, d.Fits 0 (.var v)) ∧
      ∀ t ∈ m.types, d.Proper 0 t) ∧
    (∀ v ∈ d.usedVars id, v ∈ d.scopeWithin d.classes.size id) ∧
    ∀ parent ∈ d.superclasses id, rank parent < rank id

instance decidableClassInOrder (d : Declarations) (rank : ClassId → Nat)
    (id : ClassId) (c : ClassDecl) : Decidable (d.ClassInOrder rank id c) :=
  inferInstanceAs (Decidable (_ ∧ _))

/-- Declarations are well formed where every class is in order and variables are
bounded by earlier ones at most. -/
theorem wellFormed_of_inOrder (rank : ClassId → Nat)
    (hknown : ∀ id ∈ d.wellKnown.aboveArrays, d.isDefined id)
    (hclasses : ∀ i < d.classes.size, ∀ c ∈ d.class? ⟨i⟩,
      d.ClassInOrder rank ⟨i⟩ c)
    (hparams : ∀ i < d.typeParams.size, ∀ p ∈ d.typeParam? ⟨i⟩,
      ∀ b ∈ p.upperBounds, d.Proper 0 b ∧
        ∀ w ∈ b.element.var?, w.index < i) : d.WellFormed := by
  have hinOrder : ∀ {id c}, d.class? id = some c → d.ClassInOrder rank id c :=
    fun hc => forall_class hclasses hc
  have hbound : ∀ v, ∀ b ∈ d.boundsOf v,
      d.Proper 0 b ∧ ∀ w ∈ b.element.var?, w.index < v.index := by
    intro v b hb
    obtain ⟨p, hp, hb⟩ := mem_boundsOf_iff.1 hb
    exact hparams v.index (Array.getElem?_eq_some_iff.1 hp).1 p hp b hb
  constructor
  case known => exact hknown
  case supertypes => exact fun hc => (hinOrder hc).2.1
  case params => exact fun hc => (hinOrder hc).2.2.1
  case enclosing =>
    rintro id outer ⟨c, hc, henc⟩
    exact ((hinOrder hc).1 outer henc).1
  case bounds => exact fun v b hb => (hbound v b hb).1
  case fields => exact fun hc => (hinOrder hc).2.2.2.1
  case methods => exact fun hc => (hinOrder hc).2.2.2.2.1
  case scoping =>
    intro id v hv
    obtain ⟨c, hc⟩ := hv.source
    exact inScope_of_mem_scopeWithin
      ((hinOrder hc).2.2.2.2.2.1 v (uses_iff.1 hv))
  case hierarchy =>
    refine acyclic_of_rank rank fun id parent hext => ?_
    obtain ⟨c, hc⟩ := hext.source
    exact (hinOrder hc).2.2.2.2.2.2 parent hext
  case nesting =>
    refine acyclic_of_rank rank fun id outer henc => ?_
    obtain ⟨c, hc, henc⟩ := henc
    exact ((hinOrder hc).1 outer henc).2
  case bounding =>
    refine acyclic_of_rank TypeVarId.index fun v w hbounded => ?_
    obtain ⟨b, hb, helem⟩ := hbounded
    have hearlier := (hbound v b hb).2
    rw [helem] at hearlier
    exact hearlier w rfl

theorem rooted_of_slots
    (htop : ∃ c, d.class? d.wellKnown.object = some c ∧ c.kind = .ordinary ∧
      c.supertypes = [])
    (hclasses : ∀ i < d.classes.size, ∀ c ∈ d.class? ⟨i⟩,
      (∀ s ∈ c.supertypes, ∀ x ∈ s.parts, x.Documented) ∧
        (c.kind = .ordinary → (⟨i⟩ : ClassId) ≠ d.wellKnown.object →
          c.supertypes ≠ []))
    (hparams : ∀ i < d.typeParams.size, ∀ p ∈ d.typeParam? ⟨i⟩,
      ∀ b ∈ p.upperBounds,
        (∀ x ∈ b.parts, x.Documented) ∧ b.isPrimitive = false) : d.Rooted := by
  have hslot : ∀ {id c}, d.class? id = some c →
      (∀ s ∈ c.supertypes, ∀ x ∈ s.parts, x.Documented) ∧
        (c.kind = .ordinary → id ≠ d.wellKnown.object → c.supertypes ≠ []) :=
    fun hc => forall_class
      (P := fun id c => (∀ s ∈ c.supertypes, ∀ x ∈ s.parts, x.Documented) ∧
        (c.kind = .ordinary → id ≠ d.wellKnown.object → c.supertypes ≠ []))
      hclasses hc
  constructor
  · exact ⟨htop, fun hc => (hslot hc).1, fun v b hb => forall_bound hparams hb⟩
  · exact fun hc => (hslot hc).2

end Declarations

namespace TypeStore

open Declarations

/-- The core package is well formed. -/
theorem core_wellFormed : core.toDeclarations.WellFormed :=
  wellFormed_of_inOrder ClassId.index (by decide) (by decide) (by decide)

theorem core_rooted : core.toDeclarations.Rooted :=
  rooted_of_slots ⟨_, rfl, rfl, rfl⟩ (by decide) (by decide)

theorem core_declaresConverted :
    core.toDeclarations.DeclaresConverted := fun _ _ hc =>
  forall_class (d := core.toDeclarations)
    (P := fun _ c => ∀ s ∈ c.supertypes, s.Converted) (by decide) hc

/-- A resolver over the core package, with the usual knobs and no test of its
own. -/
def coreResolver : Resolver := ⟨⟨core.toDeclarations, none⟩, {}⟩

theorem coreResolver_standard : coreResolver.Standard :=
  ⟨core_wellFormed, core_rooted, rfl, rfl⟩

/-! ## Declarations that mention themselves -/

namespace Seed

def chain : ClassId := ⟨11⟩

/-- `T extends Number & Comparable<T>`, another
`T extends Comparable<? super T>`, and
`class Chain implements Comparable<Comparable<? super Chain>>`. -/
def knottedEdits : List Edit :=
  [ .addTypeParam "T" [],
    .defineTypeParam ⟨2⟩
      ⟨"T", [.named number, applied comparable [tv 2]], none⟩,
    .addTypeParam "T" [],
    .defineTypeParam ⟨3⟩
      ⟨"T", [applied comparable [(Wildcard.above object (tv 3)).toTy]], none⟩,
    .intern "p.Chain",
    .defineClass chain
      (classDecl "p.Chain" [] (.named object)
        [applied comparable
          [applied comparable [(Wildcard.above object (.named chain)).toTy]]]
        [] []) ]

end Seed

/-- The core package, and declarations in it that mention themselves. -/
def knotted : TypeStore := core.applyAll Seed.knottedEdits

theorem knotted_wellFormed : knotted.toDeclarations.WellFormed :=
  wellFormed_of_inOrder ClassId.index (by decide) (by decide) (by decide)

theorem knotted_rooted : knotted.toDeclarations.Rooted :=
  rooted_of_slots ⟨_, rfl, rfl, rfl⟩ (by decide) (by decide)

theorem knotted_declaresConverted :
    knotted.toDeclarations.DeclaresConverted := fun _ _ hc =>
  forall_class (d := knotted.toDeclarations)
    (P := fun _ c => ∀ s ∈ c.supertypes, s.Converted) (by decide) hc

/-- A resolver over these, with the usual knobs and no test of its own. -/
def knottedResolver : Resolver := ⟨⟨knotted.toDeclarations, none⟩, {}⟩

theorem knottedResolver_standard : knottedResolver.Standard :=
  ⟨knotted_wellFormed, knotted_rooted, rfl, rfl⟩

end TypeStore

end GenericTypes
