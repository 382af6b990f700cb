import GenericTypes.Declaration

/-!
# Erasure

The erasure of a type is its run-time class. A variable erases to its first
bound, so the only way to go on for ever is a circle of variables: nothing else
is followed, and everything between two variables is a finite run of array
brackets. One more step than there are variables therefore settles every case;
what has not ended by then goes in a circle.
-/

namespace GenericTypes

namespace Ty

/-- The erasure of a type, given that of its variables. -/
def eraseWith (onVar : TypeVarId → Outcome Class) : Ty → Outcome Class
  | .nominal c => .ok c
  | .parameterized c _ _ => .ok (.named c)
  | .var v => onVar v
  | .wildcard _ _ => .error (.notErasable .wildcard)
  | .genericArray t => do return .array (← t.eraseWith onVar)
  | .capture _ => .error (.notErasable .capture)

end Ty

namespace Declarations

/-- The erasure of a variable, following at most `fuel` variables. -/
def eraseVar (d : Declarations) : Nat → TypeVarId → Outcome Class
  | 0, _ => .exhausted
  | fuel + 1, v => do
      let p ← d.getTypeParam v
      match p.upperBounds with
      | [] => return .named d.wellKnown.object
      | bound :: _ => bound.eraseWith (d.eraseVar fuel)

/-- The erasure of a type. -/
def erase (d : Declarations) (t : Ty) : Outcome Class :=
  t.eraseWith (d.eraseVar (d.typeParams.size + 1))

/-- The erasure of a class-like type, and nothing for a variable, a wildcard, a
capture or an array of one of the last two. -/
def erasure? (d : Declarations) (t : Ty) : Outcome (Option Class) :=
  match t with
  | .nominal _ | .parameterized _ _ _ | .genericArray _ =>
      match d.erase t with
      | .ok c => .ok (some c)
      | .error (.notErasable _) => .ok none
      | .error e => .error e
      | .exhausted => .exhausted
  | .var _ | .wildcard _ _ | .capture _ => .ok none

/-- Whether a class or one enclosing it is generic, looking at no more than
`fuel` classes. -/
def isGenericWithin (d : Declarations) : Nat → ClassId → Outcome Bool
  | 0, _ => .exhausted
  | fuel + 1, id => do
      let c ← d.getClass id
      if c.typeParams.isEmpty then
        match c.enclosing with
        | some outer => d.isGenericWithin fuel outer
        | none => return false
      else
        return true

/-- Whether a class used without arguments is raw: it declares type parameters,
or a class enclosing it does. A chain of enclosing classes longer than there are
classes goes in a circle. -/
def isRaw (d : Declarations) : Class → Outcome Bool
  | .named id => d.isGenericWithin (d.classes.size + 1) id
  | .primitive _ | .array _ => .ok false

/-- `id` with an unbounded wildcard for each of its parameters and for those of
the classes enclosing it, looking at no more than `fuel` classes. -/
def wildcardsWithin (d : Declarations) : Nat → ClassId → Outcome Ty
  | 0, _ => .exhausted
  | fuel + 1, id => do
      if ← d.isRaw (.named id) then
        let c ← d.getClass id
        let owner ← match c.enclosing with
          | some outer => do
              let t ← d.wildcardsWithin fuel outer
              pure (some t)
          | none => pure none
        let unknown := (Wildcard.unbounded d.wellKnown.object).toTy
        return .parameterized id (c.typeParams.map fun _ => unknown) owner
      else
        return .named id

/-- A class with unknown arguments in every place that takes one; an array keeps
its shape, and a class that takes none is left plain. -/
def withWildcards (d : Declarations) : Class → Outcome Ty
  | .named id => d.wildcardsWithin (d.classes.size + 1) id
  | .primitive p => .ok (.primitive p)
  | .array c => do return (← d.withWildcards c).arrayOf

end Declarations

end GenericTypes
