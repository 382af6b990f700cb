import GenericTypes.Toml
import GenericTypes.Toml.Number

/-!
# Documents

A document is a list of statements, one a line: an entry, or a header that says
which table the entries after it go into. Reading the statements and putting
them together are two steps, and either may refuse the document.

What may be added to a table depends on how it came about. A header opens a
table once, unless longer headers have passed through it before; a dotted key
goes through tables that dotted keys made, and never ends in one that a header
made; a table in braces is closed. The entries of a table opened late stand at
its end.
-/

namespace GenericTypes

namespace Toml

open Scan

/-- A line of a document. -/
inductive Statement where
  | entry (path : List String) (value : Toml)
  | header (path : List String)
  | repeatedHeader (path : List String)

/-- Change the entries that a dotted key leads to, where `inside` is whether the
key has parts before its last. -/
def throughDotted (change : Entries → Option Entries) :
    List String → Entries → Option Entries
  | [], entries => change entries
  | name :: path, entries =>
      match valueOf? name entries with
      | none => do
          return put name (.table .dotted (← throughDotted change path []))
            entries
      | some (.table .dotted inner) => do
          return put name (.table .dotted (← throughDotted change path inner))
            entries
      | some (.table .implied inner) =>
          if path.isEmpty then none
          else do
            return put name (.table .implied
              (← throughDotted change path inner)) entries
      | some (.tables items) =>
          match path, items.getLast? with
          | _ :: _, some (.table origin inner) => do
              let last := .table origin (← throughDotted change path inner)
              return put name (.tables (items.dropLast ++ [last])) entries
          | _, _ => none
      | some _ => none

/-- Put a new entry at the end. -/
def addEntry (name : String) (v : Toml) (entries : Entries) : Option Entries :=
  if (valueOf? name entries).isSome then none else some (entries ++ [(name, v)])

/-- Enter a value under a dotted key. -/
def enter (path : List String) (v : Toml) (entries : Entries) :
    Option Entries :=
  match path.getLast? with
  | some name => throughDotted (addEntry name v) path.dropLast entries
  | none => none

/-- Change the entries that a header leads to, going through tables of any kind
but those in braces, and through the last table under a repeated header. -/
def throughHeader (change : Entries → Option Entries) :
    List String → Entries → Option Entries
  | [], entries => change entries
  | name :: path, entries =>
      match valueOf? name entries with
      | none => do
          return put name (.table .implied (← throughHeader change path []))
            entries
      | some (.table .inline _) => none
      | some (.table origin inner) => do
          return put name (.table origin (← throughHeader change path inner))
            entries
      | some (.tables items) =>
          match items.getLast? with
          | some (.table origin inner) => do
              let last := .table origin (← throughHeader change path inner)
              return put name (.tables (items.dropLast ++ [last])) entries
          | _ => none
      | some _ => none

/-- Open the table under a name, which may have been passed through before. -/
def openTable (body : Entries → Option Entries) (name : String)
    (entries : Entries) : Option Entries :=
  match valueOf? name entries with
  | none => do return entries ++ [(name, .table .header (← body []))]
  | some (.table .implied inner) => do
      return drop name entries ++ [(name, .table .header (← body inner))]
  | some _ => none

/-- Open one more table under a repeated header. -/
def openRepeated (body : Entries → Option Entries) (name : String)
    (entries : Entries) : Option Entries :=
  match valueOf? name entries with
  | none => do return entries ++ [(name, .tables [.table .header (← body [])])]
  | some (.tables items) => do
      return put name (.tables (items ++ [.table .header (← body [])])) entries
  | some _ => none

/-- Enter the values of the leading statements, up to the next header. -/
def enterAll : List Statement → Entries → Option Entries
  | .entry path v :: rest, entries => do enterAll rest (← enter path v entries)
  | _, entries => some entries

/-- Put statements together in the tables that stand so far. Entries are taken
up with the header before them. -/
def assemble : List Statement → Entries → Option Entries
  | [], entries => some entries
  | .entry _ _ :: rest, entries => assemble rest entries
  | .header path :: rest, entries => do
      let name ← path.getLast?
      let entries ← throughHeader (openTable (enterAll rest) name)
        path.dropLast entries
      assemble rest entries
  | .repeatedHeader path :: rest, entries => do
      let name ← path.getLast?
      let entries ← throughHeader (openRepeated (enterAll rest) name)
        path.dropLast entries
      assemble rest entries

/-- A list in brackets, with commas between; lines may be broken anywhere, and a
comma may stand at the end. -/
def bracketed (item : Scan Toml) : Scan (List Toml) := do
  char '['
  let items ← (do
    let items ← separated (spacing *> item <* spacing) (char ',')
    let _ ← optionally (char ',')
    return items) <|> return []
  spacing
  char ']'
  return items

/-- An entry, given how to read its value. -/
def entry (value : Scan Toml) : Scan (List String × Toml) := do
  let path ← key
  char '='
  blanks
  return (path, ← value)

/-- Entries in braces on one line, with commas between. -/
def braced (value : Scan Toml) : Scan Entries := do
  char '\x7b'
  let items ← separated (entry value <* blanks) (char ',') <|> return []
  blanks
  char '\x7d'
  match items.foldlM (fun entries item => enter item.1 item.2 entries) [] with
  | some entries => return entries
  | none => failure

/-- A value, nested no deeper than `depth`. -/
def value : Nat → Scan Toml
  | 0 => scalarValue
  | depth + 1 =>
      (do return .array (← bracketed (value depth))) <|>
      (do return .table .inline (← braced (value depth))) <|>
      scalarValue
where
  /-- A value without parts. -/
  scalarValue : Scan Toml :=
    (do return .string (← anyString)) <|>
    (text "true" *> return .boolean true) <|>
    (text "false" *> return .boolean false) <|>
    (do return .moment (← dateOrTime)) <|>
    (do return .float (← fractional)) <|>
    (do return .float (← special)) <|>
    (do return .integer (← wholeNumber))

/-- A header. -/
def header : Scan Statement :=
  (do
    text "[["
    let path ← key
    text "]]"
    return .repeatedHeader path) <|>
  (do
    char '['
    let path ← key
    char ']'
    return .header path)

/-- A line without its end: blanks, a statement if there is one, a comment if
there is one. -/
def line : Scan (Option Statement) := do
  blanks
  let statement ← optionally (header <|> do
    let (path, v) ← entry (value depthLimit)
    return .entry path v)
  blanks
  let _ ← optionally comment
  return statement

/-- The statements of a document. -/
def statements (text : List Char) : Option (List Statement) := do
  let lines ← all? (separated line lineBreak) text
  return lines.filterMap id

/-- Read a document, in front of which a byte order mark may stand. -/
def read? (text : String) : Option Entries := do
  let chars := match text.toList with
    | '\ufeff' :: cs => cs
    | cs => cs
  let lines ← statements chars
  assemble lines (← enterAll lines [])

end Toml

end GenericTypes
