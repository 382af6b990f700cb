import GenericTypes.Toml.Scan

/-!
# Blanks, comments, keys and strings

Strings come in four forms. Between double quotes a backslash starts an escape;
between single quotes it stands for itself. Tripled quotes let a string go over
several lines, where a line break right after the opening is left out and every
line break is a single line feed.
-/

namespace GenericTypes

namespace Toml

open Scan

/-- Spaces and tabs. -/
def isBlank (c : Char) : Bool := c == ' ' || c == '\t'

/-- The characters that may stand in a comment or, quotes and backslashes apart,
in a string: tabs and all but controls. -/
def isTextChar (c : Char) : Bool :=
  c == '\t' || 0x20 ≤ c.toNat && c.toNat ≤ 0x7e || 0x80 ≤ c.toNat

/-- The characters that stand for themselves between double quotes. -/
def isBasicChar (c : Char) : Bool := isTextChar c && c != '"' && c != '\\'

/-- The characters that stand for themselves between single quotes. -/
def isLiteralChar (c : Char) : Bool := isTextChar c && c != '\''

/-- The characters of a key without quotes. -/
def isBareKeyChar (c : Char) : Bool := c.isAlphanum || c == '_' || c == '-'

/-- Blanks, if any. -/
def blanks : Scan Unit := do let _ ← takeWhile isBlank

/-- The end of a line. -/
def lineBreak : Scan Unit := char '\n' <|> text "\r\n"

/-- A comment up to the end of its line. -/
def comment : Scan Unit := do
  char '#'
  let _ ← takeWhile isTextChar

/-- Blanks, line breaks and comments, if any. -/
def spacing : Scan Unit := do
  let _ ←
    many (satisfying isBlank *> pure () <|> lineBreak <|>
      (comment *> lineBreak))

/-- The value of a hexadecimal digit. -/
def hexValue? (c : Char) : Option Nat :=
  if c.isDigit then some (c.toNat - '0'.toNat)
  else if 'a' ≤ c && c ≤ 'f' then some (c.toNat - 'a'.toNat + 10)
  else if 'A' ≤ c && c ≤ 'F' then some (c.toNat - 'A'.toNat + 10)
  else none

/-- So many hexadecimal digits, read on from a value. -/
def hexDigits : Nat → Nat → Scan Nat
  | 0, value => return value
  | count + 1, value => do
      let c ← satisfying fun c => (hexValue? c).isSome
      hexDigits count (16 * value + (hexValue? c).getD 0)

/-- The character of a code point; surrogates and what lies beyond the last
plane have none. -/
def scalar (n : Nat) : Scan Char :=
  if n < 0xd800 || 0xdfff < n && n < 0x110000 then return Char.ofNat n
  else failure

/-- The character that an escape stands for. -/
def escape : Scan Char := do
  char '\\'
  match ← satisfying fun _ => true with
  | 'b' => return '\x08'
  | 't' => return '\t'
  | 'n' => return '\n'
  | 'f' => return '\x0c'
  | 'r' => return '\r'
  | '"' => return '"'
  | '\\' => return '\\'
  | 'u' => scalar (← hexDigits 4 0)
  | 'U' => scalar (← hexDigits 8 0)
  | _ => failure

/-- A string between double quotes. -/
def basicString : Scan String := do
  char '"'
  let cs ← many (satisfying isBasicChar <|> escape)
  char '"'
  return String.ofList cs

/-- A string between single quotes. -/
def literalString : Scan String := do
  char '\''
  let cs ← takeWhile isLiteralChar
  char '\''
  return String.ofList cs

/-- A backslash at the end of a line, with the blanks and lines after it; it
stands for nothing. -/
def continuation : Scan (List Char) := do
  char '\\'
  blanks
  lineBreak
  let _ ← many (satisfying isBlank *> pure () <|> lineBreak)
  return []

/-- One or two quotes that do not close the string. -/
def innerQuotes (quote : Char) : Scan (List Char) := do
  char quote
  let second ← optionally (char quote)
  match ← peek? with
  | some c => if c = quote then failure
  | none => failure
  return if second.isSome then [quote, quote] else [quote]

/-- The end of a string between tripled quotes, before which one or two quotes
may stand. -/
def closing (quote : Char) : Scan (List Char) := do
  char quote
  char quote
  char quote
  let more ← many (char quote)
  if more.length ≤ 2 then return more.map fun _ => quote else failure

/-- A string over several lines, given what stands between its quotes. -/
def multiline (quote : Char) (piece : Scan (List Char)) : Scan String := do
  char quote
  char quote
  char quote
  let _ ← optionally lineBreak
  let pieces ←
    many (piece <|> (lineBreak *> return ['\n']) <|> innerQuotes quote)
  let final ← closing quote
  return String.ofList (pieces.flatten ++ final)

/-- A string between tripled double quotes. -/
def multilineBasicString : Scan String :=
  multiline '"'
    (takeWhile1 isBasicChar <|> continuation <|> do let c ← escape; return [c])

/-- A string between tripled single quotes. -/
def multilineLiteralString : Scan String :=
  multiline '\'' (takeWhile1 isLiteralChar)

/-- A string in any form. -/
def anyString : Scan String :=
  multilineBasicString <|> multilineLiteralString <|>
    basicString <|> literalString

/-- One part of a key. -/
def simpleKey : Scan String :=
  basicString <|> literalString <|>
    do let cs ← takeWhile1 isBareKeyChar; return String.ofList cs

/-- How many parts a key has at most, and how deep values are nested at most. -/
def depthLimit : Nat := 79

/-- A key, whose parts have dots between them. -/
def key : Scan (List String) := do
  let path ← separated (blanks *> simpleKey <* blanks) (char '.')
  if path.length ≤ depthLimit then return path else failure

end Toml

end GenericTypes
