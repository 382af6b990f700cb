import GenericTypes.Resolver.Member

/-!
# Requests

Everything that can be asked of a resolver, as data, so that whole histories can
be spoken of. A history is run request by request in one context; a request that
fails does not stop it.
-/

namespace GenericTypes

/-- A question to a resolver, or the order to forget everything. -/
inductive Request where
  | reset
  | erase (t : Ty)
  | capture (t : Ty)
  | directSupertypes (t : Ty)
  | exactSupertype (t : Ty) (target : Class)
  | isRaw (c : Class)
  | withWildcards (c : Class)
  | typeArgument (t : Ty) (v : TypeVarId)
  | boundingClasses (t : Ty)
  | isSupertype (sup sub : Ty)
  | contains (outer inner : Ty)
  | memberType (declaring : ClassId) (declared owner : Ty)
  | fieldType (declaring : ClassId) (field : FieldDecl) (owner : Ty)
  | parameterTypes (declaring : ClassId) (method : MethodDecl) (owner : Ty)
  | returnType (declaring : ClassId) (method : MethodDecl) (owner : Ty)
  | boundedParameterTypes (declaring : ClassId) (method : MethodDecl)
    (owner : Ty)
  | boundedReturnType (declaring : ClassId) (method : MethodDecl) (owner : Ty)
  | fieldTypeByName (owner : Ty) (name : String)
  | returnTypeByName (owner : Ty) (name : String)
  | resolveBound (t : Ty)

/-- The answer to a request. -/
inductive Answer where
  | done
  | truth (b : Bool)
  | type (t : Ty)
  | types (ts : List Ty)
  /-- A type, if there is one. -/
  | typeIfAny (t : Option Ty)
  | erased (c : Class)
  | bounds (cs : List Class)
  /-- What a method found by name returns, if anything; nothing at all where no
  method was found. -/
  | returned (t : Option (Option Ty))
deriving DecidableEq

namespace Resolver

/-- Answer a request, searching no deeper than `depth`. -/
def answer (r : Resolver) (depth : Nat) : Request → Resolve Answer
  | .reset => do
      Resolve.modify fun ctx => { ctx with captures := #[], memo := [] }
      return .done
  | .erase t => do return .erased (← r.env.erase t)
  | .capture t => do return .type (← r.capture t)
  | .directSupertypes t => do return .types (← r.directSupertypes t)
  | .exactSupertype t target => do
      return .typeIfAny (← r.exactSupertype depth t target)
  | .isRaw c => do return .truth (← r.env.isRaw c)
  | .withWildcards c => do return .type (← r.env.withWildcards c)
  | .typeArgument t v => do return .typeIfAny (← r.typeArgument depth t v)
  | .boundingClasses t => do return .bounds (← r.boundingClasses depth t)
  | .isSupertype sup sub => do return .truth (← r.isSupertype depth sup sub)
  | .contains outer inner => do return .truth (← r.contains depth outer inner)
  | .memberType declaring declared owner => do
      return .type (← r.memberType depth declaring declared owner)
  | .fieldType declaring field owner => do
      return .type (← r.fieldType depth declaring field owner)
  | .parameterTypes declaring method owner => do
      return .types (← r.parameterTypes depth declaring method owner)
  | .returnType declaring method owner => do
      return .typeIfAny (← r.returnType depth declaring method owner)
  | .boundedParameterTypes declaring method owner => do
      return .types (← r.boundedParameterTypes depth declaring method owner)
  | .boundedReturnType declaring method owner => do
      return .typeIfAny (← r.boundedReturnType depth declaring method owner)
  | .fieldTypeByName owner name => do
      return .typeIfAny (← r.fieldTypeByName depth owner name)
  | .returnTypeByName owner name => do
      return .returned (← r.returnTypeByName depth owner name)
  | .resolveBound t => do return .type (← r.resolveBound depth t)

/-- The outcomes of several requests in order, and the context they leave. -/
def answerAll (r : Resolver) (depth : Nat) :
    List Request → Context → List (Outcome Answer) × Context
  | [], ctx => ([], ctx)
  | q :: qs, ctx =>
      let (outcome, ctx) := r.answer depth q ctx
      let (outcomes, ctx) := r.answerAll depth qs ctx
      (outcome :: outcomes, ctx)

/-- The depth a search may reach where nothing else is asked for. Searches over
declarations without circles stay far below it. -/
def usualDepth : Nat := 10000

end Resolver

end GenericTypes
