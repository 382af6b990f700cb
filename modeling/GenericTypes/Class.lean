import GenericTypes.Ident

/-!
# Erased classes

`Class` is what is left of a type at run time: a declared class, a primitive, or
an array of either. Erasure lands here, and the assignability test that prunes
every search is a test between two of these.
-/

namespace GenericTypes

/-- The primitive types. -/
inductive Primitive where
  | boolean | byte | short | char | int | long | float | double
deriving DecidableEq

/-- The keyword that denotes a primitive type. -/
def Primitive.name : Primitive → String
  | .boolean => "boolean"
  | .byte => "byte"
  | .short => "short"
  | .char => "char"
  | .int => "int"
  | .long => "long"
  | .float => "float"
  | .double => "double"

/-- A class that a value can have at run time, type arguments forgotten. -/
inductive Class where
  | named (id : ClassId)
  | primitive (p : Primitive)
  | array (component : Class)
deriving DecidableEq

namespace Class

/-- The class of the elements, for an array. -/
def component? : Class → Option Class
  | .array c => some c
  | .named _ | .primitive _ => none

/-- Whether the class is primitive itself; an array of primitives is not. -/
def isPrimitive : Class → Bool
  | .primitive _ => true
  | .named _ | .array _ => false

/-- The declared class, unless the class is primitive or an array. -/
def named? : Class → Option ClassId
  | .named id => some id
  | .primitive _ | .array _ => none

end Class

end GenericTypes
