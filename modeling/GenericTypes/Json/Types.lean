import GenericTypes.Json
import GenericTypes.Ty

/-!
# The written form of types

A type is written as an object with one field, named for the case, and a case
with several parts as a record. Writing a type and reading it back gives the
same tree: an array of a plain class keeps the spelling it has, and an owner
that is absent stays absent. Reading accepts more than writing produces, such as
records with missing or unknown fields.

An index is written as a whole number and has to fit in thirty-two bits.
-/

namespace GenericTypes

namespace Json

/-- One more than the largest index that can be written. -/
def indexLimit : Nat := 4294967296

/-- The index a number is written as. -/
def index? (j : Json) : Option Nat := j.nat?.filter (· < indexLimit)

theorem index?_nat {n : Nat} (h : n < indexLimit) :
    (nat n).index? = some n := by
  simp [index?, h]

end Json

/-- Read a class number. -/
def ClassId.ofJson? (j : Json) : Option ClassId := j.index?.map .mk

/-- Read the number of a type variable. -/
def TypeVarId.ofJson? (j : Json) : Option TypeVarId := j.index?.map .mk

/-- Read the number of a capture. -/
def CaptureId.ofJson? (j : Json) : Option CaptureId := j.index?.map .mk

/-- Write a class number. -/
def ClassId.toJson (id : ClassId) : Json := .nat id.index

/-- Write the number of a type variable. -/
def TypeVarId.toJson (id : TypeVarId) : Json := .nat id.index

/-- Write the number of a capture. -/
def CaptureId.toJson (id : CaptureId) : Json := .nat id.index

namespace Primitive

/-- The written name of a primitive type. -/
def caseName : Primitive → String
  | .boolean => "Boolean"
  | .byte => "Byte"
  | .short => "Short"
  | .char => "Char"
  | .int => "Int"
  | .long => "Long"
  | .float => "Float"
  | .double => "Double"

/-- Every primitive type. -/
def all : List Primitive :=
  [.boolean, .byte, .short, .char, .int, .long, .float, .double]

/-- Write a primitive type. -/
def toJson (p : Primitive) : Json := .string p.caseName

/-- Read a primitive type. -/
def ofJson? (j : Json) : Option Primitive := do
  let name ← j.caseName?
  all.find? (·.caseName = name)

end Primitive

namespace Class

/-- Write a class. -/
def toJson : Class → Json
  | .named id => .object [("Named", id.toJson)]
  | .primitive p => .object [("Primitive", p.toJson)]
  | .array c => .object [("Array", c.toJson)]

/-- Read a class. -/
def ofJson? : Json → Option Class
  | .object [(tag, body)] =>
      if tag = "Named" then (ClassId.ofJson? body).map .named
      else if tag = "Primitive" then (Primitive.ofJson? body).map .primitive
      else if tag = "Array" then (ofJson? body).map .array
      else none
  | _ => none

end Class

namespace Ty

mutual

/-- Write a type. -/
def toJson : Ty → Json
  | .nominal c => .object [("Class", c.toJson)]
  | .parameterized id args owner =>
      .object [("Parameterized", .object
        [("args", .array (listToJson args)), ("class", id.toJson),
          ("owner", ownerToJson owner)])]
  | .var id => .object [("TypeVar", id.toJson)]
  | .wildcard upper lower =>
      .object [("Wildcard", .object
        [("lower_bounds", .array (listToJson lower)),
          ("upper_bounds", .array (listToJson upper))])]
  | .genericArray t => .object [("GenericArray", t.toJson)]
  | .capture id => .object [("Capture", id.toJson)]

/-- Write types one by one. -/
def listToJson : List Ty → List Json
  | [] => []
  | t :: ts => t.toJson :: listToJson ts

/-- Write an owner, which may be absent. -/
def ownerToJson : Option Ty → Json
  | none => .null
  | some t => t.toJson

end

mutual

/-- Read a type. -/
def ofJson? : Json → Option Ty
  | .object [(tag, body)] =>
      if tag = "Class" then (Class.ofJson? body).map .nominal
      else if tag = "Parameterized" then parameterizedOfJson? body
      else if tag = "TypeVar" then (TypeVarId.ofJson? body).map .var
      else if tag = "Wildcard" then wildcardOfJson? body
      else if tag = "GenericArray" then (ofJson? body).map .genericArray
      else if tag = "Capture" then (CaptureId.ofJson? body).map .capture
      else none
  | _ => none

/-- Read the record of a parameterized type. -/
def parameterizedOfJson? : Json → Option Ty
  | .object fields => do
      let id ← ClassId.ofJson? (Json.under "class" fields)
      let args ← listUnder? "args" fields
      let owner ← ownerUnder? "owner" fields
      return .parameterized id args owner
  | .array [c, .array args, .null] => do
      let id ← ClassId.ofJson? c
      let args ← itemsOfJson? args
      return .parameterized id args none
  | .array [c, .array args, o] => do
      let id ← ClassId.ofJson? c
      let args ← itemsOfJson? args
      let owner ← ofJson? o
      return .parameterized id args (some owner)
  | _ => none

/-- Read the record of a wildcard. -/
def wildcardOfJson? : Json → Option Ty
  | .object fields => do
      let upper ← listUnder? "upper_bounds" fields
      let lower ← listUnder? "lower_bounds" fields
      return .wildcard upper lower
  | .array [.array upper, .array lower] => do
      let upper ← itemsOfJson? upper
      let lower ← itemsOfJson? lower
      return .wildcard upper lower
  | _ => none

/-- Read the types under a name. -/
def listUnder? (name : String) : List (String × Json) → Option (List Ty)
  | [] => none
  | (k, v) :: rest =>
      if k = name then
        match v with
        | .array items => itemsOfJson? items
        | _ => none
      else listUnder? name rest

/-- Read the owner under a name, which may be absent. -/
def ownerUnder? (name : String) : List (String × Json) → Option (Option Ty)
  | [] => some none
  | (k, v) :: rest =>
      if k = name then
        match v with
        | .null => some none
        | v => (ofJson? v).map some
      else ownerUnder? name rest

/-- Read types one by one. -/
def itemsOfJson? : List Json → Option (List Ty)
  | [] => some []
  | j :: js => do
      let t ← ofJson? j
      let ts ← itemsOfJson? js
      return t :: ts

end

end Ty

namespace Wildcard

/-- Write the bounds of a wildcard. -/
def toJson (w : Wildcard) : Json :=
  .object
    [("lower_bounds", .ofList Ty.toJson w.lower),
      ("upper_bounds", .ofList Ty.toJson w.upper)]

end Wildcard

end GenericTypes
