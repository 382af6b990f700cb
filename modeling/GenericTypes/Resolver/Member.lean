import GenericTypes.Resolver.Subtyping

/-!
# Member types

The type of a member depends on the owner it is accessed through: the owner is
captured, seen as the declaring class, and its arguments are put into the
declared type. Through a raw owner the declared type is erased. Members of the
top type, and static ones, keep their declared type; so does a member of a
class that the owner is not below, which is reported.
-/

namespace GenericTypes

namespace Resolver

/-- The captured owner seen as the declaring class, if it is below that
class. -/
def viewAs (r : Resolver) (depth : Nat) (declaring : ClassId) (owner : Ty) :
    Resolve (Option Ty) := do
  let captured ← r.capture owner
  match ← r.exactSupertype depth captured (.named declaring) with
  | some view => return some view
  | none => do
      Resolve.emit (.unsubstituted owner declaring)
      return none

/-- A declared type seen through an owner, where the variables in `own` belong
to the member itself. -/
def seenThrough (r : Resolver) (depth : Nat) (declaring : ClassId)
    (declared owner : Ty) (own : List TypeVarId) : Resolve Ty := do
  match ← r.viewAs depth declaring owner with
  | some view => r.substituteThrough declared view own
  | none => return declared

/-- The type of a member of `declaring` with the given declared type, accessed
through an instance of `owner`. -/
def memberType (r : Resolver) (depth : Nat) (declaring : ClassId)
    (declared owner : Ty) : Resolve Ty :=
  if declaring = r.env.wellKnown.object then return declared
  else r.seenThrough depth declaring declared owner []

/-- The type of a field accessed through `owner`. -/
def fieldType (r : Resolver) (depth : Nat) (declaring : ClassId)
    (field : FieldDecl) (owner : Ty) : Resolve Ty :=
  if field.isStatic then return field.type
  else r.memberType depth declaring field.type owner

/-- The parameter types of a method called on `owner`, all seen through one
capture of it. -/
def parameterTypes (r : Resolver) (depth : Nat) (declaring : ClassId)
    (method : MethodDecl) (owner : Ty) : Resolve (List Ty) :=
  if method.isStatic || declaring = r.env.wellKnown.object then
    return method.params
  else do
    match ← r.viewAs depth declaring owner with
    | some view => r.substituteAll view method.typeParams method.params
    | none => return method.params

/-- The return type of a method called on `owner`, if it returns anything. -/
def returnType (r : Resolver) (depth : Nat) (declaring : ClassId)
    (method : MethodDecl) (owner : Ty) : Resolve (Option Ty) :=
  match method.returnType with
  | none => return none
  | some declared =>
      if method.isStatic || declaring = r.env.wellKnown.object then
        return some declared
      else do
        return some (← r.seenThrough depth declaring declared owner
          method.typeParams)

/-- A class in the place of a type with a variable left in it: a variable gives
its bounding class, or the top type unless there is exactly one, and a
parameterized type with a variable among its arguments is erased. Any other type
is kept. -/
def resolveBound (r : Resolver) (depth : Nat) (t : Ty) : Resolve Ty :=
  match t with
  | .var _ => do
      match ← r.boundingClasses depth t with
      | [c] => return .nominal c
      | _ => return r.env.top
  | .parameterized _ args _ =>
      if args.any Ty.isVar then do return .nominal (← r.env.erase t)
      else return t
  | .nominal _ | .wildcard _ _ | .genericArray _ | .capture _ => return t

/-- `resolveBound` for each of several types, in order. -/
def resolveBounds (r : Resolver) (depth : Nat) : List Ty → Resolve (List Ty)
  | [] => return []
  | t :: ts => do
      let t ← r.resolveBound depth t
      let ts ← r.resolveBounds depth ts
      return t :: ts

/-- The parameter types of a method, without variables left over. -/
def boundedParameterTypes (r : Resolver) (depth : Nat) (declaring : ClassId)
    (method : MethodDecl) (owner : Ty) : Resolve (List Ty) := do
  let types ← r.parameterTypes depth declaring method owner
  r.resolveBounds depth types

/-- The return type of a method, without a variable left over. -/
def boundedReturnType (r : Resolver) (depth : Nat) (declaring : ClassId)
    (method : MethodDecl) (owner : Ty) : Resolve (Option Ty) := do
  match ← r.returnType depth declaring method owner with
  | some t => do return some (← r.resolveBound depth t)
  | none => return none

/-- The class whose members are looked up through an owner; only class types and
parameterized types have one. -/
def ownerClass? : Ty → Option ClassId
  | .nominal c => c.named?
  | .parameterized id _ _ => some id
  | .var _ | .wildcard _ _ | .genericArray _ | .capture _ => none

/-- The type of the nearest field of a name, accessed through `owner`. -/
def fieldTypeByName (r : Resolver) (depth : Nat) (owner : Ty) (name : String) :
    Resolve (Option Ty) :=
  match ownerClass? owner >>= fun id => r.env.lookupField id name with
  | some (declaring, field) => do
      return some (← r.fieldType depth declaring field owner)
  | none => return none

/-- The return type of the nearest method of a name, called on `owner`; the
inner absence is that of a method that returns nothing. -/
def returnTypeByName (r : Resolver) (depth : Nat) (owner : Ty) (name : String) :
    Resolve (Option (Option Ty)) :=
  match ownerClass? owner >>= fun id => r.env.lookupMethod id name with
  | some (declaring, method) => do
      return some (← r.returnType depth declaring method owner)
  | none => return none

end Resolver

end GenericTypes
