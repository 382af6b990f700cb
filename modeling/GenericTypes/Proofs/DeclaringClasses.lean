import GenericTypes.Proofs.FreshNumbers

/-!
# Which class a type variable names

A type variable names the class that declares it. Defining a class writes itself
into the variables it lists; redefining a variable replaces all of it, and with
it the class. So while a class stays defined and keeps a variable to itself, the
variable names the class until it is redefined, and from then on what the
redefinition says, until the class is defined again.

Which of the two came last can be read off the history alone (`redefinition?`),
without following the store: no other class writes into the variable, and a
variable is listed only after it was handed out. The run lemma `listed_settled`
carries this from step to step; what a single step does is in `class?_apply` and
`typeParam?_apply`.
-/

namespace GenericTypes

namespace TypeStore

variable {s start : TypeStore} {id : ClassId} {c : ClassDecl} {v : TypeVarId}
  {p q : TypeParamDecl} {e : Edit} {edits : List Edit}

/-! ## Histories -/

/-- The class that a step defines, with its definition. -/
def Edit.definition? (s : TypeStore) : Edit → Option (ClassId × ClassDecl)
  | .defineClass id c => some (id, c)
  | .addClass c => some ((s.intern c.name).1, c)
  | .intern _ | .addTypeParam _ _ | .defineTypeParam _ _ => none

/-- The classes that a history defines, with their definitions. -/
def definitions (s : TypeStore) : List Edit → List (ClassId × ClassDecl)
  | [] => []
  | e :: edits => (e.definition? s).toList ++ definitions (s.apply e).2 edits

/-- The classes that are defined, with their definitions. -/
def defined (s : TypeStore) : List (ClassId × ClassDecl) :=
  (List.range s.classes.size).filterMap fun n =>
    (s.class? ⟨n⟩).map (Prod.mk ⟨n⟩)

/-- Every variable that a definition of the history lists was handed out
before. -/
def HandedOut (s : TypeStore) : List Edit → Prop
  | [] => True
  | e :: edits =>
      (∀ d ∈ e.definition? s, ∀ v ∈ d.2.typeParams, v.index <
          s.typeParams.size) ∧
        HandedOut (s.apply e).2 edits

instance decidableHandedOut :
    ∀ (s : TypeStore) (edits : List Edit), Decidable (HandedOut s edits)
  | _, [] => .isTrue trivial
  | s, e :: edits =>
      have := decidableHandedOut (s.apply e).2 edits
      inferInstanceAs (Decidable (_ ∧ _))

/-- A history that lists variables only after they were handed out, and no
variable in two classes, those defined at the start included. -/
structure Orderly (start : TypeStore) (edits : List Edit) : Prop where
  handedOut : HandedOut start edits
  listedByOne : ∀ d ∈ start.defined ++ definitions start edits,
    ∀ d' ∈ start.defined ++ definitions start edits,
      ∀ v ∈ d.2.typeParams, v ∈ d'.2.typeParams → d.1 = d'.1

/-- What a step makes of a variable: a redefinition, nothing that lasts if it
lets a class claim the variable, and no change otherwise. -/
def Edit.word? (v : TypeVarId) : Edit → Option (Option TypeParamDecl)
  | .defineTypeParam w q => if w = v then some (some q) else none
  | .defineClass _ c | .addClass c =>
      if v ∈ c.typeParams then some none else none
  | .intern _ | .addTypeParam _ _ => none

/-- The last redefinition of a variable, unless a class that lists the variable
was defined after it. -/
def redefinition? (edits : List Edit) (v : TypeVarId) : Option TypeParamDecl :=
  (edits.reverse.findSome? (Edit.word? v)).join

theorem mem_defined : (id, c) ∈ s.defined ↔ s.class? id = some c := by
  simp only [defined, List.mem_filterMap, List.mem_range,
    Option.map_eq_some_iff]
  constructor
  · rintro ⟨n, -, d, hd, heq⟩
    cases heq
    exact hd
  · intro hc
    refine ⟨id.index, ?_, c, hc, rfl⟩
    exact Nat.lt_of_not_le fun hsize =>
      nomatch hc.symm.trans (class?_of_size_le hsize)

theorem definitions_snoc (s : TypeStore) (edits : List Edit) (e : Edit) :
    definitions s (edits ++ [e]) =
      definitions s edits ++ (e.definition? (s.applyAll edits)).toList := by
  induction edits generalizing s with
  | nil => simp [definitions, applyAll]
  | cons first edits ih =>
      rw [List.cons_append, definitions, definitions, ih, List.append_assoc]
      rfl

theorem handedOut_snoc : HandedOut s (edits ++ [e]) ↔
    HandedOut s edits ∧
        ∀ d ∈ e.definition? (s.applyAll edits), ∀ v ∈ d.2.typeParams,
      v.index < (s.applyAll edits).typeParams.size := by
  induction edits generalizing s with
  | nil => simp [HandedOut, applyAll]
  | cons first edits ih =>
      rw [List.cons_append, HandedOut, HandedOut, ih, and_assoc]
      rfl

theorem Orderly.init (h : Orderly start (edits ++ [e])) :
    Orderly start edits where
  handedOut := (handedOut_snoc.1 h.handedOut).1
  listedByOne d hd d' hd' := by
    have hinit : ∀ d ∈ start.defined ++ definitions start edits,
        d ∈ start.defined ++ definitions start (edits ++ [e]) := by
      intro d hd
      rw [definitions_snoc, ← List.append_assoc]
      exact List.mem_append_left _ hd
    exact h.listedByOne d (hinit d hd) d' (hinit d' hd')

theorem redefinition?_snoc (edits : List Edit) (e : Edit) (v : TypeVarId) :
    redefinition? (edits ++ [e]) v = (e.word? v).getD
      (redefinition? edits v) := by
  rw [redefinition?, List.reverse_append, List.reverse_singleton,
    List.singleton_append,
    List.findSome?_cons]
  cases e.word? v <;> rfl

/-! ## One step -/

theorem class?_intern_eq (s : TypeStore) (name : String) (id : ClassId) :
    (s.intern name).2.class? id = s.class? id := by
  cases h : s.classId? name with
  | some _ => rw [intern_of_known h]
  | none =>
      rw [intern_of_new h, Declarations.class?, Declarations.class?,
        Array.getElem?_push]
      split
      · next hid => simp [hid]
      · rfl

theorem class?_defineClass (s : TypeStore) (id j : ClassId) (c : ClassDecl) :
    (s.defineClass id c).class? j =
      if id = j ∧ j.index < s.classes.size then some c else s.class? j := by
  rw [Declarations.class?, classes_defineClass, Array.getElem?_setIfInBounds]
  by_cases hid : id = j
  · subst hid
    by_cases hsize : id.index < s.classes.size
    · simp [hsize]
    · simp [hsize, class?_of_size_le (Nat.le_of_not_lt hsize)]
  · have hindex : id.index ≠ j.index := fun heq => hid (congrArg ClassId.mk heq)
    simp [hid, hindex, Declarations.class?]

theorem typeParams_intern (s : TypeStore) (name : String) :
    (s.intern name).2.typeParams = s.typeParams := by
  cases h : s.classId? name with
  | some _ => rw [intern_of_known h]
  | none => rw [intern_of_new h]

/-- The variable as declared by a class, all else unchanged. -/
def claimedBy (id : ClassId) (p : TypeParamDecl) : TypeParamDecl :=
  { p with declaringClass := some id }

theorem typeParam?_claim (s : TypeStore) (id : ClassId) (w v : TypeVarId) :
    (s.claim id w).typeParam? v =
      if w = v then (s.typeParam? v).map (claimedBy id)
      else s.typeParam? v := by
  show (s.typeParams.modify w.index (claimedBy id))[v.index]? = _
  rw [Array.getElem?_modify]
  by_cases hw : w = v
  · simp [hw, Declarations.typeParam?]
  · have hindex : w.index ≠ v.index := fun heq => hw (congrArg TypeVarId.mk heq)
    simp [hw, hindex, Declarations.typeParam?]

theorem typeParam?_claims (id : ClassId) (v : TypeVarId) (vs : List TypeVarId) :
    ∀ s : TypeStore, (vs.foldl (fun s v => s.claim id v) s).typeParam? v =
      if v ∈ vs then (s.typeParam? v).map (claimedBy id)
      else s.typeParam? v := by
  induction vs with
  | nil => exact fun _ => rfl
  | cons w vs ih =>
      intro s
      have htwice : claimedBy id ∘ claimedBy id = claimedBy id := rfl
      rw [List.foldl_cons, ih, typeParam?_claim]
      by_cases hw : w = v
      · simp [hw, htwice]
      · simp [hw, Ne.symm hw]

theorem typeParam?_defineClass (s : TypeStore) (id : ClassId) (c : ClassDecl)
    (v : TypeVarId) : (s.defineClass id c).typeParam? v =
      if v ∈ c.typeParams then (s.typeParam? v).map (claimedBy id)
      else s.typeParam? v :=
  typeParam?_claims id v c.typeParams s

theorem typeParam?_defineTypeParam (s : TypeStore) (w v : TypeVarId)
    (q : TypeParamDecl) : (s.defineTypeParam w q).typeParam? v =
      if w = v then (s.typeParam? v).map fun _ => q else s.typeParam? v := by
  show (s.typeParams.setIfInBounds w.index q)[v.index]? = _
  rw [Array.getElem?_setIfInBounds]
  by_cases hw : w = v
  · subst hw
    simp only [Declarations.typeParam?]
    by_cases hsize : w.index < s.typeParams.size
    · simp [hsize]
    · simp [hsize]
  · have hindex : w.index ≠ v.index := fun heq => hw (congrArg TypeVarId.mk heq)
    simp [hw, hindex, Declarations.typeParam?]

theorem typeParam?_addTypeParam (hp : s.typeParam? v = some p) (name : String)
    (bounds : List Ty) :
    (s.addTypeParam name bounds).2.typeParam? v = some p := by
  show (s.typeParams.push _)[v.index]? = _
  have hv : v.index < s.typeParams.size := (Array.getElem?_eq_some_iff.1 hp).1
  rw [Array.getElem?_push, if_neg (Nat.ne_of_lt hv)]
  exact hp

/-- What is defined after a class was defined is that class, or was defined
before under another number. -/
theorem class?_defineClass_cases {s' : TypeStore} {j : ClassId} {d : ClassDecl}
    (hsame : s'.class? id = s.class? id)
    (hc : (s'.defineClass j d).class? id = some c) :
    (j, d) = (id, c) ∨ s.class? id = some c ∧ j ≠ id := by
  rw [class?_defineClass, hsame] at hc
  by_cases hj : j = id
  · subst hj
    by_cases hsize : j.index < s'.classes.size
    · rw [if_pos ⟨rfl, hsize⟩] at hc
      exact .inl (congrArg (Prod.mk j) (Option.some.inj hc))
    · have hnone := class?_of_size_le (Nat.le_of_not_lt hsize)
      rw [if_neg fun h => hsize h.2, ← hsame, hnone] at hc
      cases hc
  · rw [if_neg fun h => hj h.1] at hc
    exact .inr ⟨hc, hj⟩

/-- What is defined after a step is what the step defines, or was defined before
and is not touched. -/
theorem class?_apply (hc : (s.apply e).2.class? id = some c) :
    e.definition? s = some (id, c) ∨
      s.class? id = some c ∧ ∀ d ∈ e.definition? s, d.1 ≠ id := by
  cases e with
  | intern name =>
      rw [apply, class?_intern_eq] at hc
      exact .inr ⟨hc, nofun⟩
  | addTypeParam _ _ | defineTypeParam _ _ => exact .inr ⟨hc, nofun⟩
  | defineClass j d =>
      rcases class?_defineClass_cases rfl hc with heq | ⟨hc, hj⟩
      · exact .inl (congrArg some heq)
      · exact .inr ⟨hc, fun _ hd => Option.some.inj hd ▸ hj⟩
  | addClass d =>
      rcases class?_defineClass_cases (class?_intern_eq s d.name id) hc with
          heq | ⟨hc, hj⟩
      · exact .inl (congrArg some heq)
      · exact .inr ⟨hc, fun _ hd => Option.some.inj hd ▸ hj⟩

/-- A step that defines a class makes it claim what it lists, and changes no
other variable. -/
theorem typeParam?_apply (h : e.definition? s = some (id, c)) (v : TypeVarId) :
    (s.apply e).2.typeParam? v =
      if v ∈ c.typeParams then (s.typeParam? v).map (claimedBy id)
      else s.typeParam? v := by
  cases e with
  | defineClass j d =>
      obtain ⟨rfl, rfl⟩ := Prod.mk.inj (Option.some.inj h)
      exact typeParam?_defineClass s j d v
  | addClass d =>
      obtain ⟨rfl, rfl⟩ := Prod.mk.inj (Option.some.inj h)
      refine (typeParam?_defineClass (s.intern d.name).2 _ d v).trans ?_
      rw [Declarations.typeParam?, typeParams_intern]
      rfl
  | intern _ | addTypeParam _ _ | defineTypeParam _ _ => cases h

theorem word?_eq (h : e.definition? s = some (id, c)) (v : TypeVarId) :
    e.word? v = if v ∈ c.typeParams then some none else none := by
  cases e with
  | defineClass _ _ | addClass _ =>
      obtain ⟨-, rfl⟩ := Prod.mk.inj (Option.some.inj h)
      rfl
  | intern _ | addTypeParam _ _ | defineTypeParam _ _ => cases h

/-! ## A whole history -/

theorem applyAll_snoc (s : TypeStore) (edits : List Edit) (e : Edit) :
    s.applyAll (edits ++ [e]) = ((s.applyAll edits).apply e).2 :=
  applyAll_append s edits [e]

/-- What is defined in the end was defined at the start or by a step. -/
theorem mem_of_class? (hc : (start.applyAll edits).class? id = some c) :
    (id, c) ∈ start.defined ++ definitions start edits := by
  induction edits using List.reverseRecOn with
  | nil => exact List.mem_append_left _ (mem_defined.2 hc)
  | append_singleton edits e ih =>
      rw [applyAll_snoc] at hc
      rw [definitions_snoc, ← List.append_assoc]
      rcases class?_apply hc with hdef | ⟨hc, -⟩
      · exact List.mem_append_right _
          (by rw [hdef]; exact List.mem_singleton_self _)
      · exact List.mem_append_left _ (ih hc)

/-- A variable that a class lists is what it was last redefined as, or names the
class if it was not redefined since. -/
theorem listed_settled
    (hstart : ∀ id c, start.class? id = some c → ∀ v ∈ c.typeParams,
      ∃ p, start.typeParam? v = some p ∧ p.declaringClass = some id)
    (h : Orderly start edits) (hc : (start.applyAll edits).class? id = some c)
    (hv : v ∈ c.typeParams) :
    ∃ p, (start.applyAll edits).typeParam? v = some p ∧
      (redefinition? edits v).elim (p.declaringClass = some id) (p = ·) := by
  induction edits using List.reverseRecOn with
  | nil => exact hstart id c hc v hv
  | append_singleton edits e ih =>
      rw [applyAll_snoc] at hc ⊢
      rw [redefinition?_snoc]
      rcases class?_apply hc with hdef | ⟨hc, hother⟩
      · -- The step defines the class, so the variable is claimed anew.
        have hsize := (handedOut_snoc.1 h.handedOut).2 _ hdef v hv
        obtain ⟨p, hp⟩ : ∃ p, (start.applyAll edits).typeParam? v = some p :=
          ⟨_, Array.getElem?_eq_getElem hsize⟩
        refine ⟨claimedBy id p, ?_, ?_⟩
        · rw [typeParam?_apply hdef, if_pos hv, hp]
          rfl
        · rw [word?_eq hdef, if_pos hv]
          rfl
      obtain ⟨p, hp, hsettled⟩ := ih h.init hc
      cases hdef : e.definition? (start.applyAll edits) with
      | some d =>
          -- Another class that is defined does not list the variable.
          have hmem : d ∈ start.defined ++
              definitions start (edits ++ [e]) := by
            rw [definitions_snoc, hdef, ← List.append_assoc]
            exact List.mem_append_right _ (List.mem_singleton_self _)
          have hmem' : (id, c) ∈ start.defined ++
              definitions start (edits ++ [e]) := by
            rw [definitions_snoc, ← List.append_assoc]
            exact List.mem_append_left _ (mem_of_class? hc)
          have hnot : v ∉ d.2.typeParams := fun hd =>
            hother d hdef (h.listedByOne d hmem _ hmem' v hd hv)
          refine ⟨p, ?_, ?_⟩
          · rw [typeParam?_apply hdef, if_neg hnot, hp]
          · rw [word?_eq hdef, if_neg hnot]
            exact hsettled
      | none =>
          cases e with
          | intern name =>
              refine ⟨p, ?_, hsettled⟩
              rw [apply, Declarations.typeParam?, typeParams_intern]
              exact hp
          | addTypeParam name bounds =>
              exact ⟨p, typeParam?_addTypeParam hp name bounds, hsettled⟩
          | defineTypeParam w q =>
              rw [apply, typeParam?_defineTypeParam, Edit.word?]
              by_cases hw : w = v
              · rw [if_pos hw, if_pos hw, hp]
                exact ⟨q, rfl, rfl⟩
              · rw [if_neg hw, if_neg hw, hp]
                exact ⟨p, rfl, hsettled⟩
          | defineClass _ _ | addClass _ => cases hdef

/-! ## Seeded stores -/

theorem seeded_listed (hstart : start = core ∨ start = collections)
    (id : ClassId) (c : ClassDecl) (hc : start.class? id = some c)
    (v : TypeVarId) (hv : v ∈ c.typeParams) :
    ∃ p, start.typeParam? v = some p ∧ p.declaringClass = some id := by
  have hall : ∀ d ∈ start.defined, ∀ v ∈ d.2.typeParams,
      (start.typeParam? v).map TypeParamDecl.declaringClass =
        some (some d.1) := by
    rcases hstart with rfl | rfl
    · decide
    · decide +kernel
  exact Option.map_eq_some_iff.1 (hall _ (mem_defined.2 hc) v hv)

/-- After every orderly history on a seeded store, a variable that a defined
class lists is what it was last redefined as, if it was redefined since the
class was last defined. It names the class exactly if it was not, or if the
redefinition names it. -/
theorem listed_class_iff (hstart : start = core ∨ start = collections)
    (edits : List Edit) (h : Orderly start edits)
    (hc : (start.applyAll edits).class? id = some c) (hv : v ∈ c.typeParams) :
    ∃ p, (start.applyAll edits).typeParam? v = some p ∧
      (∀ q, redefinition? edits v = some q → p = q) ∧
      (p.declaringClass = some id ↔
        ∀ q, redefinition? edits v = some q → q.declaringClass = some id) := by
  obtain ⟨p, hp, hsettled⟩ := listed_settled (seeded_listed hstart) h hc hv
  refine ⟨p, hp, ?_⟩
  cases hlast : redefinition? edits v with
  | none =>
      rw [hlast] at hsettled
      exact ⟨nofun, fun _ => nofun, fun _ => hsettled⟩
  | some q =>
      rw [hlast] at hsettled
      obtain rfl : p = q := hsettled
      refine ⟨fun _ hq => Option.some.inj hq, fun hp _ hq => ?_,
        fun hq => hq p rfl⟩
      rw [← Option.some.inj hq]
      exact hp

/-- A class of one type variable, the first that a history on the core package
adds. -/
def boxDecl : ClassDecl :=
  Seed.classDecl "p.Box" [2] (.named Seed.object) [] [] []

/-- The variable of the class, bounded by itself, with no class named. -/
def boundedByItself : TypeParamDecl :=
  ⟨"T", [Seed.applied Seed.comparable [Seed.tv 2]], none⟩

/-- A variable redefined between two definitions of its class names the
class. -/
theorem redefined_between_definitions :
    let edits :=
      [.intern "p.Box", .addTypeParam "T" [], .defineClass ⟨11⟩ boxDecl,
        .defineTypeParam ⟨2⟩ boundedByItself, .defineClass ⟨11⟩ boxDecl]
    Orderly core edits ∧
      ∃ p, (core.applyAll edits).typeParam? ⟨2⟩ = some p ∧
        p.declaringClass = some ⟨11⟩ := by
  intro edits
  have horderly : Orderly core edits := ⟨by decide, by decide⟩
  have hc : (core.applyAll edits).class? ⟨11⟩ = some boxDecl := by decide
  obtain ⟨p, hp, -, hiff⟩ :=
    listed_class_iff (.inl rfl) edits horderly hc (v := ⟨2⟩) List.mem_cons_self
  exact ⟨horderly, p, hp, hiff.2 fun q hq => by cases hq⟩

/-- A variable that is redefined once its class is defined need not name it any
more. -/
theorem class_lost_by_redefinition :
    let edits :=
      [.intern "p.Box", .addTypeParam "T" [], .defineClass ⟨11⟩ boxDecl,
        .defineTypeParam ⟨2⟩ boundedByItself]
    let s := core.applyAll edits
    Orderly core edits ∧ 11 < (core.applyAll (edits.take 2)).classes.size ∧
      s.class? ⟨11⟩ = some boxDecl ∧ ⟨2⟩ ∈ boxDecl.typeParams ∧
      s.typeParam? ⟨2⟩ = some boundedByItself ∧
      boundedByItself.declaringClass ≠ some ⟨11⟩ :=
  ⟨⟨by decide, by decide⟩, by decide, by decide, by decide, by decide,
    by decide⟩

end TypeStore

end GenericTypes
