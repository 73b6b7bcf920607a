/-
# Reals as 64-bit words

A real is the word that encodes it in the IEEE 754 binary64 format.  Nothing is ever computed on
reals: they are stored, compared and printed, so that equality of words is the equality that storage
keeps, and `equal` is the numeric comparison.
-/

namespace StudyArchive

/-- A real, as its binary64 word. -/
structure Binary64 where
  /-- Sign, exponent and fraction, most significant first. -/
  bits : UInt64
  deriving DecidableEq, Repr

namespace Binary64

def zero : Binary64 := ⟨0⟩

/-- The quiet NaN that marks a value as missing. -/
def nan : Binary64 := ⟨0x7FF8000000000000⟩

instance : Inhabited Binary64 := ⟨zero⟩

/-- The weight of the sign bit. -/
def signBit : Nat := 0x8000000000000000

/-- The weight of the last bit of the exponent: there are so many fractions. -/
def unit : Nat := 0x10000000000000

/-- Whether the sign bit is set. -/
def negative (x : Binary64) : Bool := signBit ≤ x.bits.toNat

/-- The word without its sign. -/
def magnitude (x : Binary64) : Nat := x.bits.toNat % signBit

/-- The magnitude of infinity; greater ones are NaN. -/
def infinite : Nat := 0x7FF0000000000000

def isNaN (x : Binary64) : Bool := infinite < x.magnitude

/-- Numeric equality: NaN equals nothing, and the two zeros are equal. -/
def equal (x y : Binary64) : Bool :=
  !x.isNaN && !y.isNaN && (x == y || (x.magnitude == 0 && y.magnitude == 0))

/-- The significand of a finite real, below twice the unit. -/
def significand (x : Binary64) : Nat :=
  if x.magnitude / unit = 0 then x.magnitude else unit + x.magnitude % unit

/-- The power of two of a finite real, counted from `2 ^ -1074`. -/
def scale (x : Binary64) : Nat := x.magnitude / unit - 1

end Binary64
end StudyArchive
