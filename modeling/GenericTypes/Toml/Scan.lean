/-!
# Reading characters

A scan reads characters off the front of a text. It fails where the text does
not continue as it should, and a failed alternative gives back what it read, so
that another can be tried in its place.
-/

namespace GenericTypes

/-- Read something off the front of a text. -/
abbrev Scan (α : Type) := StateT (List Char) Option α

namespace Scan

variable {α β : Type}

/-- Read off a whole text, with nothing left over. -/
def all? (p : Scan α) (text : List Char) : Option α :=
  match p text with
  | some (a, []) => some a
  | _ => none

/-- What is left to read. -/
def rest : Scan (List Char) := get

/-- The next character, left where it is. -/
def peek? : Scan (Option Char) := do return (← rest).head?

/-- The next character, which has to pass a test. -/
def satisfying (test : Char → Bool) : Scan Char := do
  match ← rest with
  | c :: cs => if test c then set cs; return c else failure
  | [] => failure

/-- One given character. -/
def char (c : Char) : Scan Unit := do
  let _ ← satisfying (· == c)

/-- A given text. -/
def text (s : String) : Scan Unit := s.toList.forM char

/-- As many characters as pass a test. -/
def takeWhile (test : Char → Bool) : Scan (List Char) := do
  let cs ← rest
  set (cs.dropWhile test)
  return cs.takeWhile test

/-- As many characters as pass a test, and at least one. -/
def takeWhile1 (test : Char → Bool) : Scan (List Char) := do
  let c ← satisfying test
  return c :: (← takeWhile test)

/-- As often as it can be read, at most `fuel` times. -/
def manyWithin (p : Scan α) : Nat → Scan (List α)
  | 0 => return []
  | fuel + 1 => (do
      let a ← p
      return a :: (← manyWithin p fuel)) <|> return []

/-- As often as it can be read; each time takes a character at least. -/
def many (p : Scan α) : Scan (List α) := do manyWithin p (← rest).length

/-- Once or more, with a separator between. -/
def separated (p : Scan α) (separator : Scan β) : Scan (List α) := do
  let a ← p
  return a :: (← many (do let _ ← separator; p))

/-- Once or not at all. -/
def optionally (p : Scan α) : Scan (Option α) :=
  (do return some (← p)) <|> return none

/-- Exactly so many decimal digits, as a number. -/
def digits : Nat → Nat → Scan Nat
  | 0, read => return read
  | count + 1, read => do
      let c ← satisfying Char.isDigit
      digits count (10 * read + (c.toNat - '0'.toNat))

/-- A number of exactly so many decimal digits, within bounds. -/
def numberOf (count low high : Nat) : Scan Nat := do
  let n ← digits count 0
  if low ≤ n && n ≤ high then return n else failure

end Scan

end GenericTypes
