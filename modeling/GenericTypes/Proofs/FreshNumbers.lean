import GenericTypes.TypeStore.Seeded
import Mathlib.Data.List.Induction

/-!
# Numbers handed out for names

A store hands out class numbers in order: the number for a new name is the
number of slots, and a slot is added for it. So there is never a definition
behind it yet, and a definition entered together with its name is found there
(`class?_addClass`).

Whether the number is new to the names as well depends on the history. A class
may be defined under any number at all, and its name is recorded even where the
number has no slot. Such a name waits ahead of the slots until the numbers have
come up to it, and what a number ahead of the slots is known as can be read off
the definitions by number alone, of which the last for a name counts
(`classId?_ahead`). When the number is handed out, it is then handed out for a
second name.
-/

namespace GenericTypes

namespace TypeStore

variable {s start : TypeStore} {id j : ClassId} {c : ClassDecl}
  {name m : String}

/-! ## What the steps do to names and slots -/

/-- Marking type variables leaves classes and names alone. -/
theorem claims_keep (id : ClassId) : ∀ (vs : List TypeVarId) (s : TypeStore),
    (vs.foldl (fun s v => s.claim id v) s).classes = s.classes ∧
      (vs.foldl (fun s v => s.claim id v) s).names = s.names
  | [], _ => ⟨rfl, rfl⟩
  | v :: vs, s => claims_keep id vs (s.claim id v)

theorem classes_defineClass (s : TypeStore) (id : ClassId) (c : ClassDecl) :
    (s.defineClass id c).classes = s.classes.setIfInBounds id.index (some c) :=
  congrArg (·.setIfInBounds id.index (some c)) (claims_keep id c.typeParams s).1

theorem size_defineClass (s : TypeStore) (id : ClassId) (c : ClassDecl) :
    (s.defineClass id c).classes.size = s.classes.size := by
  rw [classes_defineClass, Array.size_setIfInBounds]

theorem classId?_defineClass (s : TypeStore) (id : ClassId) (c : ClassDecl)
    (m : String) :
    (s.defineClass id c).classId? m = if m = c.name then some id else
      s.classId? m := by
  show List.lookup m
    ((c.name, id) :: (c.typeParams.foldl (fun s v => s.claim id v) s).names) = _
  rw [(claims_keep id c.typeParams s).2, List.lookup_cons]
  by_cases h : m = c.name
  · simp [h]
  · simp [h, beq_false_of_ne h, classId?]

theorem intern_of_known (h : s.classId? name = some id) :
    s.intern name = (id, s) := by
  rw [intern, h]

theorem intern_of_new (h : s.classId? name = none) :
    s.intern name = (⟨s.classes.size⟩,
      { s with
        classes := s.classes.push none,
          names := (name, ⟨s.classes.size⟩) :: s.names }) := by
  rw [intern, h]

theorem classId?_intern (s : TypeStore) (name m : String) :
    (s.intern name).2.classId? m = if m = name then some (s.intern name).1 else
      s.classId? m := by
  cases h : s.classId? name with
  | some id =>
      rw [intern_of_known h]
      by_cases hm : m = name
      · simp [hm, h]
      · simp [hm]
  | none =>
      rw [intern_of_new h]
      show List.lookup m ((name, (⟨s.classes.size⟩ : ClassId)) :: s.names) = _
      rw [List.lookup_cons]
      by_cases hm : m = name
      · simp [hm]
      · simp [hm, beq_false_of_ne hm, classId?]

/-- What has no slot is not defined. -/
theorem class?_of_size_le (h : s.classes.size ≤ id.index) :
    s.class? id = none := by
  rw [Declarations.class?, Array.getElem?_eq_none h]
  rfl

/-- A slot is empty when it is handed out. -/
theorem class?_intern (h : s.classId? name = none) :
    (s.intern name).2.class? (s.intern name).1 = none := by
  rw [intern_of_new h, Declarations.class?]
  simp

theorem class?_addClass (h : s.classId? c.name = none) :
    (s.addClass c).1 = ⟨s.classes.size⟩ ∧
      (s.addClass c).2.class? ⟨s.classes.size⟩ = some c := by
  have haddClass : s.addClass c =
      ((s.intern c.name).1,
        (s.intern c.name).2.defineClass (s.intern c.name).1 c) := rfl
  rw [haddClass, intern_of_new h]
  refine ⟨rfl, ?_⟩
  rw [Declarations.class?, classes_defineClass]
  simp

/-! ## Names ahead of the slots -/

/-- The number that the step defines a class of the name under, if it does so by
number. -/
def Edit.defines? (name : String) : Edit → Option ClassId
  | .defineClass id c => if c.name = name then some id else none
  | .intern _ | .addTypeParam _ _ | .defineTypeParam _ _ | .addClass _ => none

/-- The number that a class of the name was last defined under by number. -/
def lastDefined (edits : List Edit) (name : String) : Option ClassId :=
  edits.reverse.findSome? (Edit.defines? name)

theorem size_intern_le (s : TypeStore) (name : String) :
    s.classes.size ≤ (s.intern name).2.classes.size := by
  cases h : s.classId? name with
  | some id =>
      exact Nat.le_of_eq (congrArg (·.2.classes.size) (intern_of_known h)).symm
  | none =>
      rw [intern_of_new h, Array.size_push]
      exact Nat.le_succ _

theorem size_apply_le (s : TypeStore) :
    ∀ e : Edit, s.classes.size ≤ (s.apply e).2.classes.size
  | .intern name => size_intern_le s name
  | .addTypeParam _ _ | .defineTypeParam _ _ => Nat.le_refl _
  | .defineClass id c => Nat.le_of_eq (size_defineClass s id c).symm
  | .addClass c =>
      Nat.le_trans (size_intern_le s c.name)
        (Nat.le_of_eq (size_defineClass _ _ c).symm)

/-- A number that is reserved has a slot, so nothing new is known of numbers
without. -/
theorem intern_ahead (hid : (s.intern name).2.classes.size ≤ id.index) :
    (if m = name then some (s.intern name).1 else s.classId? m) = some id ↔
      s.classId? m = some id := by
  by_cases hm : m = name
  · subst hm
    rw [if_pos rfl]
    cases h : s.classId? m with
    | some i => rw [intern_of_known h]
    | none =>
        rw [intern_of_new h, Array.size_push] at hid
        rw [intern_of_new h]
        constructor
        · intro heq
          obtain rfl := Option.some.inj heq
          exact absurd hid (Nat.not_succ_le_self _)
        · exact nofun
  · rw [if_neg hm]

/-- A step makes a number without a slot known only by defining a class under
it. -/
theorem classId?_apply_ahead :
    ∀ {e : Edit}, (s.apply e).2.classes.size ≤ id.index →
    ((s.apply e).2.classId? m = some id ↔
      ((e.defines? m).or (s.classId? m)) = some id)
  | .intern name, hid => by
      show (s.intern name).2.classId? m = _ ↔ _
      rw [classId?_intern]
      exact intern_ahead hid
  | .addClass c, hid => by
      have hid : (s.intern c.name).2.classes.size ≤ id.index :=
        (size_defineClass _ _ c) ▸ hid
      show ((s.intern c.name).2.defineClass (s.intern c.name).1 c).classId?
        m = _ ↔ _
      rw [classId?_defineClass, classId?_intern]
      have hrecorded : (if m = c.name then some (s.intern c.name).1 else
          if m = c.name then some (s.intern c.name).1 else s.classId? m) =
          if m = c.name then some (s.intern c.name).1 else s.classId? m := by
        split <;> rfl
      rw [hrecorded]
      exact intern_ahead hid
  | .addTypeParam _ _, _ | .defineTypeParam _ _, _ => Iff.rfl
  | .defineClass i c, _ => by
      show (s.defineClass i c).classId? m = _ ↔ _
      rw [classId?_defineClass, Edit.defines?]
      by_cases hm : m = c.name
      · simp [hm]
      · simp [hm, Ne.symm hm]

theorem applyAll_append (s : TypeStore) (before after : List Edit) :
    s.applyAll (before ++ after) = (s.applyAll before).applyAll after :=
  List.foldl_append

/-- What a number without a slot is known as, after any history. -/
theorem classId?_ahead
    (hstart : ∀ m i, start.classId? m = some i → i.index < start.classes.size)
    (edits : List Edit) :
    ∀ {id : ClassId}, (start.applyAll edits).classes.size ≤ id.index →
      ((start.applyAll edits).classId? m = some id ↔
        lastDefined edits m = some id) := by
  induction edits using List.reverseRecOn with
  | nil =>
      intro id hid
      constructor
      · exact fun h => absurd hid (Nat.not_le.2 (hstart m id h))
      · exact nofun
  | append_singleton edits e ih =>
      intro id hid
      have hall : start.applyAll (edits ++ [e]) =
          ((start.applyAll edits).apply e).2 :=
        applyAll_append start edits [e]
      have hlast : lastDefined (edits ++ [e]) m = (e.defines? m).or
          (lastDefined edits m) := by
        rw [lastDefined, List.reverse_append, List.reverse_singleton,
          List.singleton_append,
          List.findSome?_cons]
        cases e.defines? m <;> rfl
      rw [hall] at hid ⊢
      rw [classId?_apply_ahead hid, hlast]
      cases e.defines? m with
      | some i => rfl
      | none => exact ih (Nat.le_trans (size_apply_le _ e) hid)

/-! ## Seeded stores -/

theorem seeded_within (hstart : start = core ∨ start = collections)
    (m : String) (i : ClassId) (h : start.classId? m = some i) :
    i.index < start.classes.size := by
  have hnames : ∀ p ∈ start.names, p.2.index < start.classes.size := by
    rcases hstart with rfl | rfl
    · decide
    · decide +kernel
  obtain ⟨front, back, hsplit, -⟩ := List.lookup_eq_some_iff.1 h
  exact hnames (m, i) (hsplit ▸ List.mem_append_right _ List.mem_cons_self)

theorem size_applyAll_le : ∀ (edits : List Edit) (s : TypeStore),
    s.classes.size ≤ (s.applyAll edits).classes.size
  | [], _ => Nat.le_refl _
  | e :: edits, s =>
      Nat.le_trans (size_apply_le s e) (size_applyAll_le edits (s.apply e).2)

theorem exists_of_lastDefined {edits : List Edit}
    (h : lastDefined edits m = some id) :
    ∃ before c after, edits = before ++ .defineClass id c :: after := by
  obtain ⟨e, he, hdefines⟩ := List.exists_of_findSome?_eq_some h
  cases e with
  | defineClass i c =>
      rw [Edit.defines?] at hdefines
      split at hdefines
      · obtain rfl := Option.some.inj hdefines
        obtain ⟨before, after, hsplit⟩ :=
          List.append_of_mem (List.mem_reverse.1 he)
        exact ⟨before, c, after, hsplit⟩
      · cases hdefines
  | intern _ | addTypeParam _ _ | defineTypeParam _ _ | addClass _ =>
      cases hdefines

/-- After every history on a seeded store, and for every name that is new to it:
the number handed out for the name has no definition behind it, and a class
entered under the name is found there. Some name is known by that number already
exactly if a class was last defined by number under it; so none is where classes
are defined by number only under numbers that were handed out before. -/
theorem intern_fresh_iff (hstart : start = core ∨ start = collections)
    (edits : List Edit) (hnew : (start.applyAll edits).classId? name = none) :
    let s := start.applyAll edits
    let id := (s.intern name).1
    (s.class? id = none ∧ (s.intern name).2.class? id = none) ∧
      (∀ c, c.name = name → (s.addClass c).1 = id ∧
        (s.addClass c).2.class? id = some c) ∧
      ((∃ m, s.classId? m = some id) ↔ ∃ m, lastDefined edits m = some id) ∧
      ((∀ before i c after, edits = before ++ .defineClass i c :: after →
        i.index < (start.applyAll before).classes.size) →
          ∀ m, s.classId? m ≠ some id) := by
  intro s id
  have hid : id = ⟨s.classes.size⟩ := congrArg Prod.fst (intern_of_new hnew)
  have hahead : ∀ m, s.classId? m = some id ↔
      lastDefined edits m = some id := fun m =>
    classId?_ahead (seeded_within hstart) edits
      (Nat.le_of_eq (congrArg ClassId.index hid).symm)
  refine ⟨⟨?_, class?_intern hnew⟩, ?_, exists_congr hahead,
    fun hhanded m hm => ?_⟩
  · exact class?_of_size_le (Nat.le_of_eq (congrArg ClassId.index hid).symm)
  · rintro c rfl
    rw [hid]
    exact class?_addClass hnew
  · obtain ⟨before, c, after, hsplit⟩ := exists_of_lastDefined ((hahead m).1 hm)
    have hslot := hhanded before id c after hsplit
    have hgrown :=
      size_applyAll_le (.defineClass id c :: after) (start.applyAll before)
    rw [← applyAll_append, ← hsplit] at hgrown
    rw [hid] at hslot
    exact Nat.lt_irrefl _ (Nat.lt_of_lt_of_le hslot hgrown)

/-- A class defined ahead of the slots, and the number coming up for a second
name. -/
theorem second_name_taken :
    let s := core.applyAll
      [.defineClass ⟨12⟩ (Seed.interfaceDecl "p.Ghost" [] [] []),
        .intern "p.First"]
    s.classId? "p.Second" = none ∧ (s.intern "p.Second").1 = ⟨12⟩ ∧
      (∃ m, s.classId? m = some ⟨12⟩) ∧
      (s.addClass (Seed.interfaceDecl "p.Second" [] [] [])).2.class? ⟨12⟩ =
        some (Seed.interfaceDecl "p.Second" [] [] []) := by
  intro s
  have hnew : s.classId? "p.Second" = none := by decide
  have hid : (s.intern "p.Second").1 = ⟨12⟩ := by decide
  obtain ⟨-, hadd, hknown, -⟩ := intern_fresh_iff (.inl rfl)
    [.defineClass ⟨12⟩ (Seed.interfaceDecl "p.Ghost" [] [] []),
      .intern "p.First"] hnew
  refine ⟨hnew, hid, ?_, ?_⟩
  · rw [← hid]
    exact hknown.2 ⟨"p.Ghost", by decide⟩
  · rw [← hid]
    exact (hadd _ rfl).2

/-- The number after the last slot is handed out for a new name although a class
was defined under it. -/
theorem ghost_number_handed_out :
    let s := core.applyAll
      [.defineClass ⟨11⟩ (Seed.interfaceDecl "p.Ghost" [] [] [])]
    s.classId? "p.New" = none ∧ s.classId? "p.Ghost" = some ⟨11⟩ ∧
      (s.intern "p.New").1 = ⟨11⟩ := by
  decide

end TypeStore

end GenericTypes
