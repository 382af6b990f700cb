import GenericTypes.CharClass.Markless
import GenericTypes.Config
import GenericTypes.Decimal
import GenericTypes.Toml.Document

/-!
# Configurations from documents

A document is a configuration when its entries are known settings with values of
the right type; what is left out has its default. The entries are taken in the
order they are written in, and the first that does not fit is reported. A
document that is not well formed is refused without further words.
-/

namespace GenericTypes

/-- The cause for which a configuration is refused. -/
inductive ConfigError where
  /-- There is no such file, or it is not text. -/
  | unreadable
  /-- The text is not a document. -/
  | malformed
  /-- There is no setting of that name among those there are. -/
  | unknownField (name : String) (known : List String)
  /-- A value of one type stands where another is expected. -/
  | invalidType (found expected : String)
deriving DecidableEq

namespace ConfigError

/-- A name as it is quoted in messages. -/
def quoted (name : String) : String := "`" ++ name ++ "`"

/-- The names there are to choose from. -/
def choice : List String → String
  | [a, b] => s!"expected {quoted a} or {quoted b}"
  | names => "expected one of " ++ ", ".intercalate (names.map quoted)

/-- The wording of a refusal, where there is one. -/
def message? : ConfigError → Option String
  | .unreadable | .malformed => none
  | .unknownField name known =>
      some s!"failed to parse toml config: unknown field {quoted name}, {choice known}"
  | .invalidType found expected =>
      some s!"failed to parse toml config: invalid type: {found}, expected {expected}"

end ConfigError

namespace Toml

/-- A character as it is shown between double quotes. One without a mark of its
own is shown by its code point. -/
def shownChar (c : Char) : List Char :=
  match c with
  | '"' => ['\\', '"']
  | '\\' => ['\\', '\\']
  | '\n' => ['\\', 'n']
  | '\r' => ['\\', 'r']
  | '\t' => ['\\', 't']
  | '\x00' => ['\\', '0']
  | c =>
      if CharClass.markless.contains c then
        ['\\', 'u', '\x7b'] ++ Nat.toDigits 16 c.toNat ++ ['\x7d']
      else [c]

/-- A string as it is shown in messages. -/
def shown (s : String) : String :=
  String.ofList (['"'] ++ s.toList.flatMap shownChar ++ ['"'])

/-- What a value is called where another was expected. -/
def description : Toml → String
  | .string s => "string " ++ shown s
  | .integer n => s!"integer `{n}`"
  | .float x => s!"floating point `{Decimal.text x}`"
  | .boolean b => s!"boolean `{b}`"
  | .moment _ | .table _ _ => "map"
  | .array _ | .tables _ => "sequence"

/-- The truth value. -/
def boolean? : Toml → Except ConfigError Bool
  | .boolean b => .ok b
  | v => .error (.invalidType v.description "a boolean")

/-- The text. -/
def string? : Toml → Except ConfigError String
  | .string s => .ok s
  | v => .error (.invalidType v.description "a string")

/-- The name under which a moment, taken for a table, has its text. -/
def momentField : String := "$__toml_private_datetime"

end Toml

namespace LoggingConfig

/-- The settings there are. -/
def fieldNames : List String := ["level", "json"]

/-- Change the setting of a name. -/
def setField (c : LoggingConfig) (entry : String × Toml) :
    Except ConfigError LoggingConfig :=
  match entry.1 with
  | "level" => do return { c with level := ← entry.2.string? }
  | "json" => do return { c with json := ← entry.2.boolean? }
  | name => .error (.unknownField name fieldNames)

/-- Read the logging part: a table of its settings, or an array of their values
in order, whose further items are passed over. -/
def ofToml? : Toml → Except ConfigError LoggingConfig
  | .table _ entries => entries.foldlM setField {}
  | .moment text => setField {} (Toml.momentField, .string text)
  | .array items | .tables items => (fieldNames.zip items).foldlM setField {}
  | v => .error (.invalidType v.description "struct LoggingConfig")

end LoggingConfig

namespace Config

/-- The settings there are. -/
def fieldNames : List String :=
  ["memoize_supertypes", "implicit_object_supertype", "logging"]

/-- Change the setting of a name. -/
def setField (c : Config) (entry : String × Toml) : Except ConfigError Config :=
  match entry.1 with
  | "memoize_supertypes" => do
      return { c with memoizeSupertypes := ← entry.2.boolean? }
  | "implicit_object_supertype" => do
      return { c with implicitObjectSupertype := ← entry.2.boolean? }
  | "logging" => do return { c with logging := ← LoggingConfig.ofToml? entry.2 }
  | name => .error (.unknownField name fieldNames)

/-- Read a configuration from a document. -/
def ofText? (text : String) : Except ConfigError Config :=
  match Toml.read? text with
  | some entries => entries.foldlM setField {}
  | none => .error .malformed

/-- Read a configuration from the content of a file, if there is a file. -/
def ofFile? (content : Option ByteArray) : Except ConfigError Config :=
  match content >>= String.fromUTF8? with
  | some text => ofText? text
  | none => .error .unreadable

end Config

end GenericTypes
