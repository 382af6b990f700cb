import GenericTypes.Declaration

/-!
# The type store

A store is a body of declarations under construction, with the class numbers
that names were given. Declarations that mention one another are entered in two
steps: a class number is reserved by name and defined later, a type variable is
added and its bounds filled in later.

Numbers are handed out in order and never taken back. Defining a class claims
its type parameters for it, whatever they were declared to belong to before.
-/

namespace GenericTypes

/-- Declarations under construction. Of two entries for one name the first is
the one in force. -/
structure TypeStore extends Declarations where
  names : List (String × ClassId)
deriving DecidableEq

namespace TypeStore

/-- The store with nothing in it but the knowledge which class is which. -/
def empty (wk : WellKnown) : TypeStore := ⟨⟨#[], #[], wk⟩, []⟩

/-- The number of a binary name. -/
def classId? (s : TypeStore) (name : String) : Option ClassId :=
  s.names.lookup name

/-- The number of a binary name, or else of a simple name in the core
package. -/
def lookupClass? (s : TypeStore) (name : String) : Option ClassId :=
  s.classId? name <|> s.classId? ("java.lang." ++ name)

/-- The number of a name, reserved now if the name has none. -/
def intern (s : TypeStore) (name : String) : ClassId × TypeStore :=
  match s.classId? name with
  | some id => (id, s)
  | none =>
      let id : ClassId := ⟨s.classes.size⟩
      (id,
        { s with
          classes := s.classes.push none,
          names := (name, id) :: s.names })

/-- Mark a type variable as declared by a class; a number that was never handed
out is passed over. -/
def claim (s : TypeStore) (owner : ClassId) (v : TypeVarId) : TypeStore :=
  { s with
    typeParams := s.typeParams.modify v.index fun p =>
      { p with declaringClass := some owner } }

/-- Define or redefine the class behind a number and claim its type parameters.
The name leads to the number from now on, also where the number was never handed
out and there is no slot for the definition. -/
def defineClass (s : TypeStore) (id : ClassId) (c : ClassDecl) : TypeStore :=
  let s := c.typeParams.foldl (fun s v => s.claim id v) s
  { s with
    classes := s.classes.setIfInBounds id.index (some c)
    names := (c.name, id) :: s.names }

/-- Reserve the number of a definition's name and define it. -/
def addClass (s : TypeStore) (c : ClassDecl) : ClassId × TypeStore :=
  let (id, s) := s.intern c.name
  (id, s.defineClass id c)

/-- Declare a type variable that belongs to no class yet. -/
def addTypeParam (s : TypeStore) (name : String) (upperBounds : List Ty) :
    TypeVarId × TypeStore :=
  (⟨s.typeParams.size⟩,
    { s with typeParams := s.typeParams.push ⟨name, upperBounds, none⟩ })

/-- Redefine the type variable behind a number; a number that was never handed
out is passed over. -/
def defineTypeParam (s : TypeStore) (id : TypeVarId)
    (p : TypeParamDecl) : TypeStore :=
  { s with typeParams := s.typeParams.setIfInBounds id.index p }

/-- A step in the construction of a store. -/
inductive Edit where
  | intern (name : String)
  | addTypeParam (name : String) (upperBounds : List Ty)
  | defineTypeParam (id : TypeVarId) (p : TypeParamDecl)
  | defineClass (id : ClassId) (c : ClassDecl)
  | addClass (c : ClassDecl)
deriving DecidableEq

/-- The store after a step, with the number the step hands out, if any. -/
def apply (s : TypeStore) : Edit → Option Nat × TypeStore
  | .intern name => let (id, s) := s.intern name; (some id.index, s)
  | .addTypeParam name bounds =>
      let (id, s) := s.addTypeParam name bounds; (some id.index, s)
  | .defineTypeParam id p => (none, s.defineTypeParam id p)
  | .defineClass id c => (none, s.defineClass id c)
  | .addClass c => let (id, s) := s.addClass c; (some id.index, s)

/-- The store after several steps. -/
def applyAll (s : TypeStore) (edits : List Edit) : TypeStore :=
  edits.foldl (fun s e => (s.apply e).2) s

end TypeStore

end GenericTypes
