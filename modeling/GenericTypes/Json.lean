/-!
# JSON values

The values that declarations, types and configurations are written as. An object
is a list of fields, and of two under one name the first counts. A number is
kept as it is written: its digits, and how many of them stand behind the point,
so that `1` is a whole number and `1.0` is not.
-/

namespace GenericTypes

/-- A JSON value. -/
inductive Json where
  | null
  | bool (b : Bool)
  /-- The number `mantissa` divided by ten to the power of `places`. -/
  | number (mantissa : Int) (places : Nat)
  | string (s : String)
  | array (items : List Json)
  | object (fields : List (String × Json))

instance : Inhabited Json := ⟨.null⟩

namespace Json

/-- A natural number. -/
def nat (n : Nat) : Json := .number n 0

/-- The natural number that a number is written as. -/
def nat? : Json → Option Nat
  | .number (.ofNat n) 0 => some n
  | _ => none

/-- The truth value. -/
def bool? : Json → Option Bool
  | .bool b => some b
  | _ => none

/-- The text. -/
def string? : Json → Option String
  | .string s => some s
  | _ => none

/-- The value under a name; a name that is not there stands for null. -/
def under (name : String) : List (String × Json) → Json
  | [] => .null
  | (k, v) :: rest => if k = name then v else under name rest

/-- The value of a field; anything but an object has none. -/
def field (j : Json) (name : String) : Json :=
  match j with
  | .object fields => under name fields
  | _ => .null

/-- A list, given how to read one item. -/
def list? {α : Type} (read : Json → Option α) : Json → Option (List α)
  | .array items => items.mapM read
  | _ => none

/-- A value that may be absent, which null says. -/
def nullable? {α : Type} (read : Json → Option α) : Json → Option (Option α)
  | .null => some none
  | j => (read j).map some

/-- A value that may be absent, written as null. -/
def ofOption {α : Type} (write : α → Json) : Option α → Json
  | none => .null
  | some a => write a

/-- A list, item by item. -/
def ofList {α : Type} (write : α → Json) (as : List α) : Json :=
  .array (as.map write)

/-- The values of a record's fields. A record is an object, where unknown fields
are passed over and missing ones are null, or the array of the values alone, in
order and complete. -/
def record? (names : List String) : Json → Option (List Json)
  | .object fields => some (names.map fun n => under n fields)
  | .array items => if items.length = names.length then some items else none
  | _ => none

/-- The name of a case without content. It is the text itself, or an object that
has null under it. -/
def caseName? : Json → Option String
  | .string s => some s
  | .object [(tag, .null)] => some tag
  | _ => none

@[simp] theorem nat?_nat (n : Nat) : (nat n).nat? = some n := rfl

end Json

end GenericTypes
