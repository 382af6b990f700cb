import GenericTypes.Outcome

/-!
# Declarations

What a program declares: classes and interfaces with their members, and the type
variables they are generic in. Both are numbered, and a class number may be
reserved before the class is defined, since bounds and supertypes may mention
classes that come later.
-/

namespace GenericTypes

/-- A declared type variable. No bounds at all means the top type; the declaring
class is absent for a variable of a method. -/
structure TypeParamDecl where
  name : String
  upperBounds : List Ty
  declaringClass : Option ClassId
deriving DecidableEq

/-- A declared field. -/
structure FieldDecl where
  name : String
  type : Ty
  isStatic : Bool
deriving DecidableEq

/-- A declared method. A method without a return type returns nothing. -/
structure MethodDecl where
  name : String
  typeParams : List TypeVarId
  params : List Ty
  returnType : Option Ty
  isStatic : Bool
deriving DecidableEq

/-- An ordinary class has a superclass unless it is the top one; an interface
need not have any supertype. -/
inductive ClassKind where
  | ordinary
  | interface
deriving DecidableEq

/-- A declared class or interface, under its binary name; the enclosing class is
that of a member class. -/
structure ClassDecl where
  name : String
  kind : ClassKind
  typeParams : List TypeVarId
  superClass : Option Ty
  interfaces : List Ty
  enclosing : Option ClassId
  fields : List FieldDecl
  methods : List MethodDecl
deriving DecidableEq

namespace ClassDecl

/-- The supertypes a class is declared with: its superclass, then its interfaces
in order. -/
def supertypes (d : ClassDecl) : List Ty := d.superClass.toList ++ d.interfaces

/-- The classes among the declared supertypes, arguments forgotten. -/
def superclasses (d : ClassDecl) : List ClassId :=
  d.supertypes.filterMap Ty.head?

/-- The first field of a name. -/
def field? (d : ClassDecl) (name : String) : Option FieldDecl :=
  d.fields.find? fun f => f.name == name

/-- The first method of a name. -/
def method? (d : ClassDecl) (name : String) : Option MethodDecl :=
  d.methods.find? fun m => m.name == name

end ClassDecl

/-- The classes that are known by what they are for. -/
structure WellKnown where
  /-- The class above all others. -/
  object : ClassId
  cloneable : ClassId
  serializable : ClassId
  string : ClassId
  number : ClassId
  integer : ClassId
deriving DecidableEq

/-- The classes above every array, in order. -/
def WellKnown.aboveArrays (wk : WellKnown) : List ClassId :=
  [wk.object, wk.cloneable, wk.serializable]

/-- A body of declarations. A class slot is empty while its number is only
reserved. -/
structure Declarations where
  classes : Array (Option ClassDecl)
  typeParams : Array TypeParamDecl
  wellKnown : WellKnown
deriving DecidableEq

namespace Declarations

/-- The class behind a number, if it is defined. -/
def class? (d : Declarations) (id : ClassId) : Option ClassDecl :=
  d.classes[id.index]?.join

/-- The type variable behind a number. -/
def typeParam? (d : Declarations) (id : TypeVarId) : Option TypeParamDecl :=
  d.typeParams[id.index]?

/-- The class behind a number that has to be defined. -/
def getClass (d : Declarations) (id : ClassId) : Except Error ClassDecl :=
  match d.class? id with
  | some c => .ok c
  | none => .error (.undeclaredClass id)

/-- The type variable behind a number that has to be declared. -/
def getTypeParam (d : Declarations) (id : TypeVarId) :
    Except Error TypeParamDecl :=
  match d.typeParam? id with
  | some p => .ok p
  | none => .error (.undeclaredVariable id)

/-- The type above all reference types. -/
def top (d : Declarations) : Ty := .named d.wellKnown.object

/-- Whether bounds say no more than the top type does. -/
def isTop (d : Declarations) (bounds : List Ty) : Bool :=
  bounds.isEmpty || bounds = [d.top]

/-- The classes a class is declared under; none if it is undefined. -/
def superclasses (d : Declarations) (id : ClassId) : List ClassId :=
  match d.class? id with
  | some c => c.superclasses
  | none => []

/-- A class applied to arguments, as many as it has parameters. -/
def parameterized (d : Declarations) (id : ClassId) (args : List Ty)
    (owner : Option Ty) : Except Error Ty := do
  let c ← d.getClass id
  if c.typeParams.length = args.length then
    return .parameterized id args owner
  else
    throw (.arityMismatch (some id) c.typeParams.length args.length)

/-- Every array is below these types. -/
def typesAboveArrays (d : Declarations) : List Ty :=
  d.wellKnown.aboveArrays.map .named

end Declarations

end GenericTypes
