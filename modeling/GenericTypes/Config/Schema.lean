import GenericTypes.Json.Config

/-!
# The schema of a configuration

The schema says of every setting what it is for, of which type it is and what it
defaults to, so that an editor can check a configuration while it is written. It
is put together from one description a setting, and the defaults are those of
the configuration itself.
-/

namespace GenericTypes

namespace Config

/-- The schema of a setting with a plain type. -/
def settingSchema (type description : String) (fallback : Json) : Json :=
  .object
    [("default", fallback), ("description", .string description),
      ("type", .string type)]

/-- The fields in the schema of a record that admits no fields but its own. -/
def recordSchema (properties : List (String × Json)) : List (String × Json) :=
  [ ("additionalProperties", .bool false),
    ("properties", .object properties),
    ("type", .string "object") ]

/-- The schema of the logging part. -/
def loggingSchema : Json :=
  let fallback : LoggingConfig := {}
  .object (recordSchema
    [ ("json", settingSchema "boolean"
        "Emit JSON lines instead of human-readable text."
        (.bool fallback.json)),
      ("level", settingSchema "string"
        "`EnvFilter` directives, e.g. `info` or `genref=trace`."
        (.string fallback.level)) ])

/-- The schema of a configuration. -/
def schema : Json :=
  let fallback : Config := {}
  .object <|
    [ ("$schema", .string "http://json-schema.org/draft-07/schema#"),
      ("definitions", .object [("LoggingConfig", loggingSchema)]),
      ("description", .string "Tuning knobs for a [`crate::Reflector`]."),
      ("title", .string "ReflectConfig") ] ++
    recordSchema
      [ ("implicit_object_supertype", settingSchema "boolean"
          ("Treat `Object` as the direct supertype of interfaces that " ++
            "declare no superinterface (JLS 4.10.2).")
          (.bool fallback.implicitObjectSupertype)),
        ("logging", .object
          [ ("allOf", .array
            [.object [("$ref", .string "#/definitions/LoggingConfig")]]),
            ("default", fallback.logging.toJson) ]),
        ("memoize_supertypes", settingSchema "boolean"
          ("Cache direct supertypes of class and parameterized types for " ++
            "the lifetime of one reflector.")
          (.bool fallback.memoizeSupertypes)) ]

end Config

end GenericTypes
