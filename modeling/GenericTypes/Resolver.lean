import GenericTypes.Config
import GenericTypes.Erasure
import GenericTypes.Ancestry
import GenericTypes.Substitution

/-!
# Resolvers

A resolver answers questions about types over a fixed body of declarations. The
declarations are the host's, and so may be the test whether one run-time class
is assignable to another: a host can bring its own, which is then believed.

What changes as questions are answered is the context: the arena of captures,
the supertypes remembered so far and the events that report what was done. A
question that fails keeps the context it had reached, since the captures opened
on the way stay opened, so an answer is paired with the context outside the
outcome.
-/

namespace GenericTypes

/-- A host: declarations, and a test of its own for assignability if it has
one. -/
structure Environment extends Declarations where
  hostTest : Option (Class → Class → Bool)

/-- Whether a value of class `source` may stand where `target` is asked for. -/
def Environment.assignable (env : Environment) (target source : Class) : Bool :=
  match env.hostTest with
  | some test => test target source
  | none => env.isAssignable target source

/-- A capture: the wildcard it stands for, the type variable whose argument that
was, and the bounds it was given. -/
structure CaptureDef where
  wildcard : Wildcard
  typeVar : TypeVarId
  upper : List Ty
  lower : List Ty
deriving DecidableEq

/-- What a resolver reports while it works. -/
inductive Event where
  /-- The bounds of a capture are settled; the bounds are counted. -/
  | captured (id : CaptureId) (upper lower : Nat)
  /-- A supertype search goes on from a type to one of its direct supertypes. -/
  | searching (source target : Ty)
  /-- A member type was left as declared, since the owner is not below the
  declaring class. -/
  | unsubstituted (owner : Ty) (declaring : ClassId)
deriving DecidableEq

/-- What a resolver has gathered: captures by number, direct supertypes by type
and events in order. -/
structure Context where
  captures : Array CaptureDef
  memo : List (Ty × List Ty)
  events : Array Event
deriving DecidableEq

namespace Context

/-- Nothing gathered yet. -/
def empty : Context := ⟨#[], [], #[]⟩

/-- The capture behind a number, if the arena has it. -/
def capture? (ctx : Context) (id : CaptureId) : Option CaptureDef :=
  ctx.captures[id.index]?

end Context

/-- A step of a resolver. -/
def Resolve (α : Type) : Type := Context → Outcome α × Context

namespace Resolve

variable {α β : Type}

/-- Go on with the answer, if there is one, in the context reached. -/
protected def bind (x : Resolve α) (f : α → Resolve β) : Resolve β := fun ctx =>
  match x ctx with
  | (.ok a, ctx') => f a ctx'
  | (.error e, ctx') => (.error e, ctx')
  | (.exhausted, ctx') => (.exhausted, ctx')

instance : Monad Resolve where
  pure a := fun ctx => (.ok a, ctx)
  bind := Resolve.bind

theorem pure_apply (a : α) (ctx : Context) :
    (pure a : Resolve α) ctx = (.ok a, ctx) := rfl

theorem bind_apply (x : Resolve α) (f : α → Resolve β) (ctx : Context) :
    (x >>= f) ctx =
      match x ctx with
      | (.ok a, ctx') => f a ctx'
      | (.error e, ctx') => (.error e, ctx')
      | (.exhausted, ctx') => (.exhausted, ctx') := rfl

instance : LawfulMonad Resolve :=
  LawfulMonad.mk' Resolve
    (fun x => by
      funext ctx
      show Resolve.bind x _ ctx = x ctx
      simp only [Resolve.bind]
      rcases x ctx with ⟨_ | _ | _, _⟩ <;> rfl)
    (fun _ _ => rfl)
    (fun x f g => by
      funext ctx
      simp only [bind_apply]
      rcases x ctx with ⟨_ | _ | _, _⟩ <;> rfl)

/-- An outcome that leaves the context alone. -/
def ofOutcome (x : Outcome α) : Resolve α := fun ctx => (x, ctx)

instance : MonadLift Outcome Resolve := ⟨ofOutcome⟩

instance : MonadLift (Except Error) Resolve :=
  ⟨fun x => ofOutcome (.ofExcept x)⟩

/-- End with a failure. -/
def fail (e : Error) : Resolve α := ofOutcome (.error e)

/-- Stop without an answer. -/
def exhausted : Resolve α := ofOutcome .exhausted

/-- Read something off the context. -/
def read (f : Context → α) : Resolve α := fun ctx => (.ok (f ctx), ctx)

/-- Change the context. -/
def modify (f : Context → Context) : Resolve Unit := fun ctx => (.ok (), f ctx)

/-- Report an event. -/
def emit (e : Event) : Resolve Unit :=
  modify fun ctx => { ctx with events := ctx.events.push e }

/-- The capture behind a number that has to be in the arena. -/
def captureDef (id : CaptureId) : Resolve CaptureDef := do
  match ← read (·.capture? id) with
  | some c => return c
  | none => fail (.foreignCapture id)

end Resolve

/-- A resolver: a host and the knobs set for it. -/
structure Resolver where
  env : Environment
  config : Config

end GenericTypes
