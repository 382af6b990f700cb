import GenericTypes.Class

/-!
# Type expressions

`Ty` is a plain tree and accepts more than a declaration could say: a wildcard
may stand where no wildcard belongs, and an array of a plain class has two
spellings, `nominal (array c)` and `genericArray (nominal c)`. Both are kept as
they come. `arrayOf` builds the first spelling, and whether a tree is normal,
complete or well scoped is for predicates beside the data to say.

Equality is structural, captures being compared by identity through their
position, and it is decided by a recursion of the same shape as the data, so
that closed comparisons evaluate.
-/

namespace GenericTypes

/-- A type expression. -/
inductive Ty where
  /-- A class, primitive or array of those, without type arguments. -/
  | nominal (c : Class)
  /-- A generic class applied to arguments; a member class also carries the
  type it is a member of. -/
  | parameterized (id : ClassId) (args : List Ty) (owner : Option Ty)
  /-- A declared type variable. -/
  | var (id : TypeVarId)
  /-- An unknown argument, between all of `lower` and all of `upper`. -/
  | wildcard (upper lower : List Ty)
  /-- An array whose component is not a plain class. -/
  | genericArray (component : Ty)
  /-- The variable that stands for one wildcard at one place. -/
  | capture (id : CaptureId)

namespace Ty

mutual

/-- Structural comparison. -/
def beq : Ty → Ty → Bool
  | .nominal c, .nominal d => c = d
  | .parameterized c as o, .parameterized d bs p =>
      c = d && beqList as bs && beqOwner o p
  | .var v, .var w => v = w
  | .wildcard us ls, .wildcard vs ms => beqList us vs && beqList ls ms
  | .genericArray s, .genericArray t => beq s t
  | .capture i, .capture j => i = j
  | _, _ => false

/-- Structural comparison, one by one. -/
def beqList : List Ty → List Ty → Bool
  | [], [] => true
  | s :: ss, t :: ts => beq s t && beqList ss ts
  | _, _ => false

/-- Structural comparison of owners. -/
def beqOwner : Option Ty → Option Ty → Bool
  | none, none => true
  | some s, some t => beq s t
  | _, _ => false

end

mutual

theorem beq_iff_eq : ∀ s t : Ty, beq s t = true ↔ s = t
  | .nominal _, t => by cases t <;> simp [beq]
  | .parameterized _ as o, t => by
      cases t <;> simp [beq, beqList_iff_eq as, beqOwner_iff_eq o, and_assoc]
  | .var _, t => by cases t <;> simp [beq]
  | .wildcard us ls, t => by
      cases t <;> simp [beq, beqList_iff_eq us, beqList_iff_eq ls]
  | .genericArray s, t => by cases t <;> simp [beq, beq_iff_eq s]
  | .capture _, t => by cases t <;> simp [beq]

theorem beqList_iff_eq : ∀ ss ts : List Ty, beqList ss ts = true ↔ ss = ts
  | [], ts => by cases ts <;> simp [beqList]
  | s :: ss, ts => by
      cases ts <;> simp [beqList, beq_iff_eq s, beqList_iff_eq ss]

theorem beqOwner_iff_eq : ∀ o p : Option Ty, beqOwner o p = true ↔ o = p
  | none, p => by cases p <;> simp [beqOwner]
  | some s, p => by cases p <;> simp [beqOwner, beq_iff_eq s]

end

instance : BEq Ty := ⟨beq⟩

instance : LawfulBEq Ty where
  eq_of_beq h := (beq_iff_eq _ _).1 h
  rfl := (beq_iff_eq _ _).2 rfl

instance : DecidableEq Ty := fun s t => decidable_of_iff _ (beq_iff_eq s t)

/-- A declared class without arguments. -/
def named (id : ClassId) : Ty := .nominal (.named id)

/-- A primitive type. -/
def primitive (p : Primitive) : Ty := .nominal (.primitive p)

/-- An array of `component`: a nominal array for a plain class, a generic one
otherwise. -/
def arrayOf : Ty → Ty
  | .nominal c => .nominal (.array c)
  | t => .genericArray t

/-- The element type of an array, in either spelling. -/
def component? : Ty → Option Ty
  | .nominal (.array c) => some (.nominal c)
  | .genericArray t => some t
  | _ => none

/-- Whether the type is a wildcard itself. -/
def isWildcard : Ty → Bool
  | .wildcard _ _ => true
  | _ => false

/-- Whether the type is a type variable itself. -/
def isVar : Ty → Bool
  | .var _ => true
  | _ => false

/-- The class that a type names where it is declared as a supertype. Only class
types and parameterized types name one. -/
def head? : Ty → Option ClassId
  | .nominal (.named id) => some id
  | .parameterized id _ _ => some id
  | _ => none

mutual

/-- Whether a capture occurs anywhere in the type. -/
def mentionsCapture : Ty → Bool
  | .nominal _ | .var _ => false
  | .parameterized _ args owner =>
      mentionsCaptureList args || mentionsCaptureOwner owner
  | .wildcard upper lower =>
      mentionsCaptureList upper || mentionsCaptureList lower
  | .genericArray t => t.mentionsCapture
  | .capture _ => true

/-- Whether a capture occurs in one of the types. -/
def mentionsCaptureList : List Ty → Bool
  | [] => false
  | t :: ts => t.mentionsCapture || mentionsCaptureList ts

/-- Whether a capture occurs in the owner. -/
def mentionsCaptureOwner : Option Ty → Bool
  | none => false
  | some t => t.mentionsCapture

end

@[simp] theorem component?_arrayOf (t : Ty) :
    t.arrayOf.component? = some t := by
  cases t <;> rfl

theorem component?_eq_some_iff {t k : Ty} : t.component? = some k ↔
    (∃ c, t = .nominal (.array c) ∧ k = .nominal c) ∨ t = .genericArray k := by
  constructor
  · intro h
    match t with
    | .nominal (.array c) => exact .inl ⟨c, rfl, (Option.some.inj h).symm⟩
    | .genericArray _ => exact .inr (congrArg genericArray (Option.some.inj h))
  · rintro (⟨c, rfl, rfl⟩ | rfl) <;> rfl

theorem head?_eq_some_iff {t : Ty} {id : ClassId} : t.head? = some id ↔
    t = .named id ∨ ∃ args owner, t = .parameterized id args owner := by
  constructor
  · intro h
    match t with
    | .nominal (.named _) => exact .inl (congrArg named (Option.some.inj h))
    | .parameterized _ args owner =>
        exact .inr ⟨args, owner, congrArg (parameterized · args owner)
          (Option.some.inj h)⟩
  · rintro (rfl | ⟨_, _, rfl⟩) <;> rfl

end Ty

/-- The bounds of a wildcard: what stands for it is below every upper bound and
above every lower one. -/
structure Wildcard where
  upper : List Ty
  lower : List Ty
deriving DecidableEq

namespace Wildcard

/-- The wildcard as a type expression. -/
def toTy (w : Wildcard) : Ty := .wildcard w.upper w.lower

/-- The wildcard that says nothing, `top` being the type above all others. -/
def unbounded (top : ClassId) : Wildcard := ⟨[.named top], []⟩

/-- The wildcard for the subtypes of `bound`. -/
def below (bound : Ty) : Wildcard := ⟨[bound], []⟩

/-- The wildcard for the supertypes of `bound`. -/
def above (top : ClassId) (bound : Ty) : Wildcard := ⟨[.named top], [bound]⟩

end Wildcard

end GenericTypes
