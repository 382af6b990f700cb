/-!
# Identifiers

Classes, type variables and captures are named by position: a class or a type
variable by its place in a body of declarations, a capture by its place in the
arena of the resolver that opened it. The three kinds are kept apart by type,
so a capture can never be looked up among the classes.

Nothing bounds an index here. A written index has to fit in thirty-two bits,
and that is a rule of the written form only.
-/

namespace GenericTypes

/-- The position of a class or interface among the declarations. -/
structure ClassId where
  index : Nat
deriving DecidableEq

/-- The position of a type variable among the declarations. -/
structure TypeVarId where
  index : Nat
deriving DecidableEq

/-- The position of a capture in the arena that holds it. A capture means
nothing outside the resolver that opened it. -/
structure CaptureId where
  index : Nat
deriving DecidableEq

/-- How a class is referred to where its name is not at hand. -/
def ClassId.text (id : ClassId) : String := s!"class#{id.index}"

/-- How a type variable is referred to where its name is not at hand. -/
def TypeVarId.text (id : TypeVarId) : String := s!"tvar#{id.index}"

/-- How a capture is referred to in diagnostics. -/
def CaptureId.text (id : CaptureId) : String := s!"capture#{id.index}"

end GenericTypes
