/-!
# Decimals and floating point

A decimal is read as the floating point number nearest to it. So a floating
point number is the value of a whole interval of reals, those that round to it.
Its shortest decimal is the one with the fewest digits in that interval, and of
several the nearest to the number, the larger one if two are equally near. On
each grid of decimals the only candidates are the two neighbours of the number,
so the grids are tried from the coarsest on, in whole-number arithmetic; with
seventeen digits there is always a hit.
-/

namespace GenericTypes

namespace Decimal

/-- The floating point number nearest to a fraction; of two equally near, the
one whose last binary digit is zero.

A number is a whole number below two to the power of 53, in units of a power of
two no less than the power of -1074. With the least unit that will do, the bits
count the numbers from zero up, so that rounding up to the next unit, and beyond
the largest number to infinity, is adding one. -/
def nearest (numerator denominator : Nat) : Float :=
  let low : Int := numerator.log2 - denominator.log2 - 53
  let fits := numerator * Nat.pow 2 (-low - 53).toNat < denominator * Nat.pow 2
    (low + 53).toNat
  let q := max (if fits then low else low + 1) (-1074)
  let n := numerator * Nat.pow 2 (-q).toNat
  let d := denominator * Nat.pow 2 q.toNat
  let up := d < 2 * (n % d) || d = 2 * (n % d) && n / d % 2 = 1
  let bits := (q + 1074).toNat * Nat.pow 2 52 + n / d + if up then 1 else 0
  Float.ofBits (UInt64.ofNat (min bits (2047 * Nat.pow 2 52)))

/-- The floating point number nearest to `c` times ten to the power of `k`.
Powers that are out of reach for so many digits are cut off before they are
worked out. -/
def toFloat (c : Nat) (k : Int) : Float :=
  let magnitude := k + (Nat.toDigits 10 c).length
  if c = 0 || magnitude < -400 then 0
  else if magnitude > 400 then 1 / 0
  else nearest (c * Nat.pow 10 k.toNat) (Nat.pow 10 (-k).toNat)

/-- A positive number and the ends of the interval that rounds to it, as
fractions over one denominator; the ends belong to it or not. -/
structure Interval where
  low : Nat
  mid : Nat
  high : Nat
  denominator : Nat
  closed : Bool

/-- The interval of the number `m` times two to the power of `q`. Below a power
of two the numbers lie twice as close. -/
def Interval.around (m : Nat) (q : Int) : Interval :=
  let factor := Nat.pow 2 (q - 2).toNat
  let gap := if m = Nat.pow 2 52 && q > -1074 then 1 else 2
  { low := (4 * m - gap) * factor
    mid := 4 * m * factor
    high := (4 * m + 2) * factor
    denominator := Nat.pow 2 (2 - q).toNat
    closed := m % 2 = 0 }

/-- How many digits the number has before the point, less the zeros after the
point where it has none before. -/
def Interval.magnitude (i : Interval) : Int :=
  if i.denominator ≤ i.mid then (Nat.toDigits 10 (i.mid / i.denominator)).length
  else go 400 0
where
  go : Nat → Nat → Int
    | 0, j => 1 - j
    | fuel + 1, j =>
        if i.denominator ≤ i.mid * Nat.pow 10 j then 1 - (j : Int)
        else go fuel (j + 1)

/-- The decimal in the interval among the multiples of ten to the power of `k`,
as its multiple. -/
def Interval.onGrid? (i : Interval) (k : Int) : Option Nat :=
  let unit := i.denominator * Nat.pow 10 k.toNat
  let scale := Nat.pow 10 (-k).toNat
  let inside (c : Nat) : Bool :=
    if i.closed then i.low * scale ≤ c * unit && c * unit ≤ i.high * scale
    else i.low * scale < c * unit && c * unit < i.high * scale
  let below := i.mid * scale / unit
  let above := below + 1
  match inside below, inside above with
  | true, true =>
      let short := i.mid * scale - below * unit
      let excess := above * unit - i.mid * scale
      if short < excess then some below else some above
  | true, false => some below
  | false, true => some above
  | false, false => none

/-- The shortest decimal of an interval: its digits as a number, and the power
of ten they are multiplied by. The first grid has nothing but the next power of
ten to offer. -/
def Interval.shortest (i : Interval) : Nat × Int :=
  go 18 0
where
  go : Nat → Nat → Nat × Int
    | 0, _ => (0, 0)
    | fuel + 1, count =>
        let k := i.magnitude - count
        match i.onGrid? k with
        | some c => (c, k)
        | none => go fuel (count + 1)

/-- The number `c` times ten to the power of `k`, without a power of ten and
with a digit at least on either side of the point. -/
def positional (c : Nat) (k : Int) : String :=
  let ds := Nat.toDigits 10 c
  let places := (-k).toNat
  let ds := ds ++ List.replicate k.toNat '0'
  let ds := List.replicate (places + 1 - ds.length) '0' ++ ds
  let whole := ds.take (ds.length - places)
  let fraction := ds.drop (ds.length - places)
  String.ofList whole ++ "." ++
    String.ofList (if fraction.isEmpty then ['0'] else fraction)

/-- The shortest decimal of a floating point number, written out. -/
def text (x : Float) : String :=
  if x.isNaN then "NaN"
  else
    let bits := x.toBits.toNat
    let sign := if bits < Nat.pow 2 63 then "" else "-"
    let biased : Nat := bits / Nat.pow 2 52 % 2048
    let fraction : Nat := bits % Nat.pow 2 52
    if x.isInf then sign ++ "inf"
    else if biased = 0 && fraction = 0 then sign ++ "0.0"
    else
      let (m, q) : Nat × Int :=
        if biased = 0 then (fraction, -1074)
        else (fraction + Nat.pow 2 52, (biased : Int) - 1075)
      let (c, k) := (Interval.around m q).shortest
      sign ++ positional c k

end Decimal

end GenericTypes
