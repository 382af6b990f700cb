import GenericTypes.Ty

/-!
# Why a question has no answer

An error carries its cause, not its wording. Most causes are the caller's: a
step was skipped, such as capturing wildcards first or counting arguments. The
others come from the declarations, which lack something the question needs, and
those alone are not a breach of contract.
-/

namespace GenericTypes

/-- The types that have no erasure of their own. -/
inductive Unerasable where
  | wildcard
  | capture
deriving DecidableEq

/-- The cause of a failure. -/
inductive Error where
  /-- A wildcard or a capture was to be erased. -/
  | notErasable (kind : Unerasable)
  /-- A substitution met a variable that it does not bind. -/
  | unboundVariable (id : TypeVarId)
  /-- A class, where one is known, was given the wrong number of arguments. -/
  | arityMismatch (cls : Option ClassId) (expected found : Nat)
  /-- A wildcard was compared as though it were a type. -/
  | unexpectedWildcard
  /-- The class is not declared. -/
  | undeclaredClass (id : ClassId)
  /-- The type variable is not declared. -/
  | undeclaredVariable (id : TypeVarId)
  /-- The capture is not in the arena. -/
  | foreignCapture (id : CaptureId)
  /-- The type supplies no arguments to substitute. -/
  | notSubstitutable (t : Ty)
deriving DecidableEq

/-- Whether the caller skipped a required step, rather than asking about
something that the declarations do not have. -/
def Error.isContractViolation : Error → Bool
  | .notErasable _ | .unboundVariable _ | .arityMismatch _ _ _
  | .unexpectedWildcard => true
  | .undeclaredClass _ | .undeclaredVariable _ | .foreignCapture _
  | .notSubstitutable _ => false

end GenericTypes
