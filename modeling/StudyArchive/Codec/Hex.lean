import StudyArchive.Codec.Bytes
/-
# Bytes as hexadecimal digits

Two lower-case digits for each byte.
-/

namespace StudyArchive.Bytes

/-- The digits of a byte. -/
def hexByte (b : UInt8) : List Char :=
  [Nat.digitChar (b.toNat / 16), Nat.digitChar (b.toNat % 16)]

def toHex (bytes : Bytes) : String := String.ofList (bytes.flatMap hexByte)

/-- The value of a hexadecimal digit of either case. -/
def hexDigit? (c : Char) : Option Nat :=
  if '0' ≤ c ∧ c ≤ '9' then some (c.toNat - '0'.toNat)
  else if 'a' ≤ c ∧ c ≤ 'f' then some (c.toNat - 'a'.toNat + 10)
  else if 'A' ≤ c ∧ c ≤ 'F' then some (c.toNat - 'A'.toNat + 10)
  else none

/-- The bytes of pairs of digits. -/
def ofDigits? : List Char → Option Bytes
  | [] => some []
  | high :: low :: rest => do
    let byte := (← hexDigit? high) * 16 + (← hexDigit? low)
    return UInt8.ofNat byte :: (← ofDigits? rest)
  | [_] => none

/-- The bytes that a text of digits spells. -/
def ofHex? (s : String) : Option Bytes := ofDigits? s.toList

end StudyArchive.Bytes
