import GenericTypes.Decimal
import GenericTypes.Toml.Text

/-!
# Numbers and moments

Whole numbers have to fit in sixty-four bits with a sign. Digits may be grouped
by single underscores, and a decimal number has no leading zero. A moment is a
date, a time of day, or a date with a time and perhaps an offset; its parts have
to be within the calendar.
-/

namespace GenericTypes

namespace Toml

open Scan

/-- Digits that pass a test, where single underscores may stand between two. -/
def groupedDigits (isDigit : Char → Bool) : Scan (List Char) := do
  let groups ← separated (takeWhile1 isDigit) (char '_')
  return groups.flatten

/-- The number written by digits in a base. -/
def ofDigits (base : Nat) (ds : List Char) : Nat :=
  ds.foldl (fun n c => base * n + (hexValue? c).getD 0) 0

/-- A sign, if there is one: whether it is a minus. -/
def sign? : Scan (Option Bool) :=
  (char '+' *> return some false) <|>
    (char '-' *> return some true) <|> return none

/-- A whole number that fits. -/
def fitting (n : Int) : Scan Int :=
  if -9223372036854775808 ≤ n && n ≤ 9223372036854775807 then return n
  else failure

/-- Decimal digits without a leading zero. -/
def decimalDigits : Scan (List Char) := do
  let ds ← groupedDigits Char.isDigit
  if ds.length = 1 || ds.head? != some '0' then return ds else failure

/-- A whole number in another base. -/
def basedInteger (lead : String) (base : Nat) (isDigit : Char → Bool) :
    Scan Int := do
  text lead
  let ds ← groupedDigits isDigit
  fitting (ofDigits base ds)

/-- A whole number. -/
def wholeNumber : Scan Int :=
  basedInteger "0x" 16 (fun c => (hexValue? c).isSome) <|>
  basedInteger "0o" 8 (fun c => '0' ≤ c && c ≤ '7') <|>
  basedInteger "0b" 2 (fun c => c == '0' || c == '1') <|> do
    let negative ← sign?
    let n : Int := ofDigits 10 (← decimalDigits)
    fitting (if negative = some true then -n else n)

/-- A power of ten, as a number with a sign. -/
def exponent : Scan Int := do
  char 'e' <|> char 'E'
  let negative ← sign?
  let n : Int := ofDigits 10 (← groupedDigits Char.isDigit)
  return if negative = some true then -n else n

/-- A number with a fraction, a power of ten or both. One too large to be told
from infinity is refused. -/
def fractional : Scan Float := do
  let negative ← sign?
  let whole ← decimalDigits
  let fraction ← optionally (char '.' *> groupedDigits Char.isDigit)
  let power ← optionally exponent
  if fraction.isNone && power.isNone then failure
  let fraction := fraction.getD []
  let x := Decimal.toFloat (ofDigits 10 (whole ++ fraction))
    (power.getD 0 - fraction.length)
  if negative = some true then return -x
  else if x.isInf then failure else return x

/-- Infinity and what is no number. -/
def special : Scan Float := do
  let negative ← sign?
  let x ← (text "inf" *> return (1 / 0 : Float)) <|>
    (text "nan" *> return (0 / 0 : Float))
  return if negative = some true then -x else x

/-- How many days a month has. -/
def daysIn (year month : Nat) : Nat :=
  if month = 2 then
    if year % 4 = 0 && (year % 100 != 0 || year % 400 = 0) then 29 else 28
  else if month = 4 || month = 6 || month = 9 || month = 11 then 30 else 31

/-- A date. -/
def date : Scan Unit := do
  let year ← digits 4 0
  char '-'
  let month ← numberOf 2 1 12
  char '-'
  let _ ← numberOf 2 1 (daysIn year month)

/-- A time of day; a minute may have a leap second. -/
def timeOfDay : Scan Unit := do
  let _ ← numberOf 2 0 23
  char ':'
  let _ ← numberOf 2 0 59
  char ':'
  let _ ← numberOf 2 0 60
  let _ ← optionally (char '.' *> takeWhile1 Char.isDigit)

/-- The offset of a time. -/
def offset : Scan Unit :=
  char 'Z' <|> char 'z' <|> do
    char '+' <|> char '-'
    let _ ← numberOf 2 0 23
    char ':'
    let _ ← numberOf 2 0 59

/-- What a scan reads off, as text. -/
def textOf (p : Scan Unit) : Scan String := do
  let before ← rest
  p
  let after ← rest
  return String.ofList (before.take (before.length - after.length))

/-- A date, a time of day or both. -/
def dateOrTime : Scan String := textOf <|
  (do
    date
    let _ ← optionally do
      char 'T' <|> char 't' <|> char ' '
      timeOfDay
      optionally offset) <|> timeOfDay

end Toml

end GenericTypes
