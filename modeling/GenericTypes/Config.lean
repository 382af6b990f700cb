/-!
# Configuration

The knobs of a resolver. Remembering supertypes never changes an answer;
treating the top type as the supertype of interfaces that declare none does.
-/

namespace GenericTypes

/-- What is logged and in which form. -/
structure LoggingConfig where
  /-- Filter directives. -/
  level : String := "info"
  /-- Lines of JSON instead of text for people. -/
  json : Bool := false
deriving DecidableEq

/-- The knobs of a resolver. -/
structure Config where
  /-- Remember the direct supertypes of class and parameterized types. -/
  memoizeSupertypes : Bool := true
  /-- Put the top type above interfaces that declare no supertype. -/
  implicitObjectSupertype : Bool := true
  logging : LoggingConfig := {}
deriving DecidableEq

end GenericTypes
