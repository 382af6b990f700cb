import GenericTypes.Error

/-!
# Outcomes

A computation over declarations that may go in circles has three ends: an
answer, a failure with a cause, or no end within the steps it was given. The
third is kept apart from every failure, so that "whenever it ends" can be said,
and so that no cause is ever reported for a search that was only cut short.
-/

namespace GenericTypes

/-- The end of a computation with bounded steps. -/
inductive Outcome (α : Type) where
  | ok (value : α)
  | error (cause : Error)
  | exhausted
deriving DecidableEq

namespace Outcome

variable {α β : Type}

/-- Go on with the answer, if there is one. -/
protected def bind : Outcome α → (α → Outcome β) → Outcome β
  | .ok a, f => f a
  | .error e, _ => .error e
  | .exhausted, _ => .exhausted

instance : Monad Outcome where
  pure := .ok
  bind := Outcome.bind

@[simp] theorem pure_eq (a : α) : (pure a : Outcome α) = .ok a := rfl

@[simp] theorem ok_bind (a : α) (f : α → Outcome β) :
    (Outcome.ok a >>= f) = f a := rfl

@[simp] theorem error_bind (e : Error) (f : α → Outcome β) :
    (Outcome.error e >>= f) = .error e := rfl

@[simp] theorem exhausted_bind (f : α → Outcome β) :
    ((Outcome.exhausted : Outcome α) >>= f) = .exhausted := rfl

instance : LawfulMonad Outcome :=
  LawfulMonad.mk' Outcome (fun x => by cases x <;> rfl) (fun _ _ => rfl)
    (fun x _ _ => by cases x <;> rfl)

/-- A computation that always ends. -/
def ofExcept : Except Error α → Outcome α
  | .ok a => .ok a
  | .error e => .error e

instance : MonadLift (Except Error) Outcome := ⟨ofExcept⟩

end Outcome

end GenericTypes
