import GenericTypes.Json
import GenericTypes.Config

/-!
# The written form of a configuration

A configuration is a record that may leave out any field, which then has its
default, but may not have fields of its own. Null is not a way to leave one out.
-/

namespace GenericTypes

namespace Json

/-- The value of a setting: that read from its field, or its default where the
field is missing. -/
def setting? {α : Type} (fields : List (String × Json)) (name : String)
    (fallback : α) (read : Json → Option α) : Option α :=
  match fields.lookup name with
  | some j => read j
  | none => some fallback

/-- The fields of a record of settings: those of an object that has no others,
or the leading ones, in order, of an array that has no more. -/
def settings? (names : List String) : Json → Option (List (String × Json))
  | .object fields =>
      if fields.all (names.contains ·.1) then some fields else none
  | .array items =>
      if items.length ≤ names.length then some (names.zip items) else none
  | _ => none

end Json

namespace LoggingConfig

/-- Write the logging part. -/
def toJson (c : LoggingConfig) : Json :=
  .object [("json", .bool c.json), ("level", .string c.level)]

/-- Read the logging part. -/
def ofJson? (j : Json) : Option LoggingConfig := do
  let fallback : LoggingConfig := {}
  let fields ← j.settings? ["level", "json"]
  return ⟨← Json.setting? fields "level" fallback.level Json.string?,
    ← Json.setting? fields "json" fallback.json Json.bool?⟩

end LoggingConfig

namespace Config

/-- Write a configuration. -/
def toJson (c : Config) : Json :=
  .object
    [ ("implicit_object_supertype", .bool c.implicitObjectSupertype),
      ("logging", c.logging.toJson),
      ("memoize_supertypes", .bool c.memoizeSupertypes) ]

/-- Read a configuration. -/
def ofJson? (j : Json) : Option Config := do
  let fallback : Config := {}
  let fields ← j.settings?
    ["memoize_supertypes", "implicit_object_supertype", "logging"]
  return ⟨← Json.setting? fields "memoize_supertypes"
      fallback.memoizeSupertypes Json.bool?,
    ← Json.setting? fields "implicit_object_supertype"
      fallback.implicitObjectSupertype Json.bool?,
    ← Json.setting? fields "logging" fallback.logging LoggingConfig.ofJson?⟩

end Config

end GenericTypes
