import GenericTypes.CharClass.Alphanumeric
import GenericTypes.CharClass.Blank
import GenericTypes.Config

/-!
# Log filters

A filter is a list of directives: a level for everything, or a level for a
target. Where two directives are about the same thing the later one counts, and
they are listed from the most to the least specific: longer targets first, among
targets of one length the later in the alphabet first, and last the directive
without a target. A filter with a directive that cannot be read is read as the
level `info` for everything.
-/

namespace GenericTypes

/-- How much is logged. -/
inductive LogLevel where
  | off | error | warn | info | debug | trace
deriving DecidableEq

namespace LogLevel

/-- Every level, the most silent first. -/
def all : List LogLevel := [.off, .error, .warn, .info, .debug, .trace]

/-- The name of a level. -/
def name : LogLevel → String
  | .off => "off"
  | .error => "error"
  | .warn => "warn"
  | .info => "info"
  | .debug => "debug"
  | .trace => "trace"

/-- The place of a level, as it may be written in digits. -/
def ofDigits? (text : String) : Option LogLevel :=
  let digits := match text.toList with
    | '+' :: cs => cs
    | cs => cs
  if digits.isEmpty || !digits.all Char.isDigit then none
  else all[digits.foldl (fun n c => 10 * n + (c.toNat - '0'.toNat)) 0]?

/-- Read a level by its place or by its name in any case. -/
def ofText? (text : String) : Option LogLevel :=
  ofDigits? text <|> all.find? fun level => level.name = text.map Char.toLower

end LogLevel

/-- A level for a target, or for everything. -/
structure Directive where
  target : Option String
  level : LogLevel
deriving DecidableEq

namespace Directive

/-- The characters a directive may start with, after blanks. -/
def isTargetStart (c : Char) : Bool :=
  CharClass.alphanumeric.contains c || c == '-' || c == ':' || c == '_'

/-- Read a directive. A target alone is for everything there is to log about it,
and so is one with nothing after the equals sign. Blanks in front are part of
the target, and such a target has to stand alone. -/
def ofText? (text : String) : Option Directive :=
  let cs := text.toList
  let unindented := cs.dropWhile CharClass.blank.contains
  if !(unindented.head?.any isTargetStart) then none
  else
    match cs.dropWhile (· != '=') with
    | _ :: level =>
        let target := String.ofList (cs.takeWhile (· != '='))
        if unindented.length < cs.length then none
        else if level.isEmpty then some ⟨some target, .trace⟩
        else (LogLevel.ofText? (String.ofList level)).map
          fun level => ⟨some target, level⟩
    | [] =>
        match LogLevel.ofText? text with
        | some level => some ⟨none, level⟩
        | none => some ⟨some text, .trace⟩

/-- Whether a directive is listed before another. -/
def precedes (a b : Directive) : Bool :=
  match a.target, b.target with
  | some s, some t =>
      t.utf8ByteSize < s.utf8ByteSize ||
        s.utf8ByteSize = t.utf8ByteSize && t < s
  | some _, none => true
  | none, _ => false

/-- Put a directive in its place, instead of one about the same thing. -/
def insert (d : Directive) : List Directive → List Directive
  | [] => [d]
  | e :: es =>
      if d.target = e.target then d :: es
      else if d.precedes e then d :: e :: es
      else e :: insert d es

/-- The text of a directive. -/
def text (d : Directive) : String :=
  match d.target with
  | some target => target ++ "=" ++ d.level.name
  | none => d.level.name

end Directive

namespace LoggingConfig

/-- The directives of a filter. -/
def directives (c : LoggingConfig) : List Directive :=
  match (c.level.splitOn ",").filter (· != "") |>.mapM Directive.ofText? with
  | none => [⟨none, .info⟩]
  | some ds => ds.foldl (fun listed d => d.insert listed) []

/-- The text of a filter. -/
def filterText (c : LoggingConfig) : String :=
  ",".intercalate (c.directives.map Directive.text)

end LoggingConfig

end GenericTypes
