/-!
# TOML values

The values of a TOML document. A table remembers how it came about, because that
decides what may still be added to it; its entries keep the order in which they
were first written. A moment in time is kept as its text.
-/

namespace GenericTypes

/-- How a table came about. -/
inductive TableOrigin where
  /-- Written in braces; nothing can be added. -/
  | inline
  /-- Named by a header of its own. -/
  | header
  /-- Passed through by a longer header. -/
  | implied
  /-- Passed through by a dotted key. -/
  | dotted
deriving DecidableEq

/-- A TOML value. -/
inductive Toml where
  | string (s : String)
  | integer (n : Int)
  | float (x : Float)
  | boolean (b : Bool)
  | moment (text : String)
  | array (items : List Toml)
  /-- The array of the tables under a repeated header. -/
  | tables (items : List Toml)
  | table (origin : TableOrigin) (entries : List (String × Toml))

instance : Inhabited Toml := ⟨.boolean false⟩

/-- Entries under their names, in order. -/
abbrev Entries := List (String × Toml)

namespace Toml

/-- The value under a name. -/
def valueOf? (name : String) (entries : Entries) : Option Toml :=
  entries.lookup name

/-- Put a value in the place of the one under a name, or at the end if there is
none. -/
def put (name : String) (v : Toml) : Entries → Entries
  | [] => [(name, v)]
  | (k, w) :: rest =>
      if k = name then (k, v) :: rest else (k, w) :: put name v rest

/-- Leave out the entry under a name. -/
def drop (name : String) (entries : Entries) : Entries :=
  entries.filter fun entry => entry.1 != name

end Toml

end GenericTypes
