/-!
# Classes of characters

A class of characters is given by the ranges of their code points. The larger
classes, which go over all scripts, are tables of such ranges.
-/

namespace GenericTypes

/-- A class of characters: ranges of code points, both ends included. -/
structure CharClass where
  ranges : List (Nat × Nat)

namespace CharClass

/-- Whether a character is of the class. -/
def contains (cls : CharClass) (c : Char) : Bool :=
  cls.ranges.any fun range => range.1 ≤ c.toNat && c.toNat ≤ range.2

end CharClass

end GenericTypes
