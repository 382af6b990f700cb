import GenericTypes.Declaration

/-!
# How types are spelled

Types are spelled as a programmer would write them, with binary class names. A
member class of a spelled owner drops the owner's name and the dollar sign after
it, which leaves the simple name behind the dot. Bounds that say nothing more
than the top type are not spelled, and what is not declared is spelled as
unknown under its number, so every type has a spelling.
-/

namespace GenericTypes

namespace Declarations

/-- The binary name of a class. -/
def className (d : Declarations) (id : ClassId) : String :=
  match d.class? id with
  | some c => c.name
  | none => s!"<unknown {id.text}>"

/-- The name of a type variable. -/
def typeVarName (d : Declarations) (id : TypeVarId) : String :=
  match d.typeParam? id with
  | some p => p.name
  | none => s!"<unknown {id.text}>"

/-- The spelling of an erased class. -/
def spellClass (d : Declarations) : Class → String
  | .named id => d.className id
  | .primitive p => p.name
  | .array c => d.spellClass c ++ "[]"

/-- The name of a class behind its owner: the binary name, without the owner's
own name and a dollar sign where it starts with them. -/
def memberName (d : Declarations) (id : ClassId) (owner : Ty) : String :=
  let name := d.className id
  match owner.head? with
  | some outer =>
      match name.dropPrefix? (d.className outer ++ "$") with
      | some rest => rest.toString
      | none => name
  | none => name

mutual

/-- The spelling of a type. -/
def spell (d : Declarations) : Ty → String
  | .nominal c => d.spellClass c
  | .parameterized id args owner =>
      let spelledArgs := match args with
        | [] => ""
        | a :: as => "<" ++ d.spellSeparated ", " (a :: as) ++ ">"
      match owner with
      | none => d.className id ++ spelledArgs
      | some o => d.spell o ++ "." ++ d.memberName id o ++ spelledArgs
  | .var id => d.typeVarName id
  | .wildcard upper lower =>
      if lower.isEmpty then
        if d.isTop upper then "?"
        else "? extends " ++ d.spellSeparated " & " upper
      else "? super " ++ d.spellSeparated " & " lower
  | .genericArray t => d.spell t ++ "[]"
  | .capture id => s!"CAP#{id.index + 1}"

/-- The spellings of several types, with a separator between them. -/
def spellSeparated (d : Declarations) (separator : String) : List Ty → String
  | [] => ""
  | t :: ts => d.spell t ++ d.spellTail separator ts

/-- The spellings of several types, each after a separator. -/
def spellTail (d : Declarations) (separator : String) : List Ty → String
  | [] => ""
  | t :: ts => separator ++ d.spell t ++ d.spellTail separator ts

end

end Declarations

namespace Error

/-- The wording of a failure, where types are spelled by the declarations. -/
def message (d : Declarations) : Error → String
  | .notErasable .wildcard =>
      "cannot erase a wildcard; capture-convert or resolve it first"
  | .notErasable .capture =>
      "cannot erase a capture; capture-convert or resolve it first"
  | .unboundVariable
    v => s!"type variable {v.text} is not bound in the variable map"
  | .arityMismatch _ expected found =>
      s!"expected {expected} type arguments but {found} were supplied"
  | .unexpectedWildcard => "wildcard used outside a type argument position"
  | .undeclaredClass id =>
      s!"unrepresentable type: no declaration for {id.text}"
  | .undeclaredVariable id =>
      s!"unrepresentable type: no declaration for {id.text}"
  | .foreignCapture id =>
      s!"unrepresentable type: {id.text} was not allocated by this context"
  | .notSubstitutable t =>
      s!"unrepresentable type: cannot substitute through {d.spell t}"

end Error

end GenericTypes
