import StudyArchive.Binary64.Basic
/-
# Decimal texts of reals

`shortest` finds the coarsest decimal grid with a point in the interval of numbers that round to a
real, and the grid point nearest to the real; `text` writes it in positional notation.  In the other
direction `ofDecimal` rounds a decimal number to the nearest real, ties to the even word.
-/

namespace StudyArchive.Binary64

/-- A positive fraction `num / den`. -/
structure Fraction where
  num : Nat
  den : Nat

/-- The fraction times a power of ten. -/
def Fraction.shift (f : Fraction) (k : Int) : Fraction :=
  match k with
  | .ofNat n => ⟨f.num * Nat.pow 10 n, f.den⟩
  | .negSucc n => ⟨f.num, f.den * Nat.pow 10 (n + 1)⟩

/-- The numbers that round to one real: the real and the two ends, over one denominator. -/
structure Interval where
  low : Nat
  mid : Nat
  high : Nat
  den : Nat
  /-- Whether the ends themselves round to the real. -/
  closed : Bool

/-- The rounding interval of a finite nonzero real, in quarters of its last place.  Below a power of
two the neighbour is only half as far. -/
def interval (x : Binary64) : Interval :=
  let m := x.significand
  let below := if m = unit ∧ x.scale ≠ 0 then 1 else 2
  let raised (n : Nat) : Nat := n <<< x.scale
  ⟨raised (4 * m - below), raised (4 * m), raised (4 * m + 2), 4 <<< 1074, m % 2 = 0⟩

/-- Whether the number `c · 10^k` lies in an interval. -/
def Interval.holds (i : Interval) (c : Nat) (k : Int) : Bool :=
  let point : Fraction := Fraction.shift ⟨c, 1⟩ k
  let value := point.num * i.den
  let low := i.low * point.den
  let high := i.high * point.den
  if i.closed then low ≤ value && value ≤ high else low < value && value < high

/-- The point of the grid of step `10^k` in an interval that is nearest to its middle; of two
equally near the greater. -/
def Interval.point? (i : Interval) (k : Int) : Option Nat :=
  let mid := Fraction.shift ⟨i.mid, i.den⟩ (-k)
  let c := mid.num / mid.den
  let down := i.holds c k
  let up := i.holds (c + 1) k
  if up && (!down || 2 * (mid.num % mid.den) ≥ mid.den) then some (c + 1)
  else if down then some c
  else none

/-- Search ever finer grids. -/
def Interval.search (i : Interval) : (fuel : Nat) → Int → Nat × Int
  | 0, k => (0, k)
  | fuel + 1, k =>
    match i.point? k with
    | some c => (c, k)
    | none => i.search fuel (k - 1)

/-- The fewest digits that read back as the real, and the power of ten of the last one. -/
def shortest (x : Binary64) : Nat × Int :=
  let i := x.interval
  let start := (Nat.toDigits 10 (i.mid / i.den)).length
  i.search (start + 1100) start

/-- Digits and a power of ten in positional notation. -/
def positional (c : Nat) (k : Int) : String :=
  let digits := Nat.toDigits 10 c
  match k with
  | .ofNat n => String.ofList (digits ++ List.replicate n '0')
  | .negSucc n =>
    let places := n + 1
    if places < digits.length then
      let whole := digits.length - places
      String.ofList (digits.take whole ++ '.' :: digits.drop whole)
    else
      String.ofList ('0' :: '.' :: List.replicate (places - digits.length) '0' ++ digits)

/-- The text of a real: the fewest digits that read back, never an exponent, no point for a whole
number, and no sign for NaN. -/
def text (x : Binary64) : String :=
  if x.isNaN then "NaN"
  else
    let body :=
      if x.magnitude = infinite then "inf"
      else if x.magnitude = 0 then "0"
      else
        let (c, k) := x.shortest
        positional c k
    if x.negative then "-" ++ body else body

/-- The quotient rounded to the nearest integer, a half to the even one. -/
def roundDiv (num den : Nat) : Nat :=
  let q := num / den
  let r := num % den
  if 2 * r < den then q
  else if den < 2 * r then q + 1
  else q + q % 2

/-- The magnitude of the real nearest to a positive fraction. -/
def nearest (f : Fraction) : Nat :=
  let rough : Int := (f.num.log2 : Int) - (f.den.log2 : Int) - 53
  let scaled (e : Int) : Fraction :=
    match e with
    | .ofNat n => ⟨f.num, f.den <<< n⟩
    | .negSucc n => ⟨f.num <<< (n + 1), f.den⟩
  let e := max rough (-1074)
  let first := scaled e
  let e := if first.num / first.den < 2 * unit then e else e + 1
  let last := scaled e
  let word := (e + 1074).toNat * unit + roundDiv last.num last.den
  min word infinite

/-- The real nearest to `mantissa · 10^exponent`. -/
def ofDecimal (negative : Bool) (mantissa : Nat) (exponent : Int) : Binary64 :=
  let size := if mantissa = 0 then 0 else nearest (Fraction.shift ⟨mantissa, 1⟩ exponent)
  ⟨UInt64.ofNat (size + if negative then signBit else 0)⟩

end StudyArchive.Binary64
