import StudyArchive.Codec.Fault
/-
# Byte sequences and their readers

A word is written least significant byte first.  A `Reader` takes its value off the front of the
bytes and leaves the rest, so readers compose in the order in which a layout lists its fields.
-/

namespace StudyArchive

/-- A byte sequence. -/
abbrev Bytes := List UInt8

namespace Bytes

/-- The low `width` bytes of a number, least significant first. -/
def ofNat : (width : Nat) → Nat → Bytes
  | 0, _ => []
  | width + 1, n => UInt8.ofNat n :: ofNat width (n / 256)

/-- The number that bytes spell, least significant first. -/
def toNat : Bytes → Nat
  | [] => 0
  | b :: rest => b.toNat + 256 * toNat rest

/-- The number of words of so many bytes. -/
def span : (width : Nat) → Nat
  | 0 => 1
  | width + 1 => 256 * span width

@[simp] theorem length_ofNat (width n : Nat) : (ofNat width n).length = width := by
  induction width generalizing n with
  | zero => rfl
  | succ w ih => simp [ofNat, ih]

theorem toNat_ofNat (width n : Nat) : toNat (ofNat width n) = n % span width := by
  induction width generalizing n with
  | zero => simp [ofNat, toNat, span, Nat.mod_one]
  | succ w ih =>
    have low : (UInt8.ofNat n).toNat = n % 256 := by simp
    rw [ofNat, toNat, ih, low, span, Nat.mod_mul]

theorem toNat_ofNat_of_lt {width n : Nat} (h : n < span width) : toNat (ofNat width n) = n := by
  rw [toNat_ofNat, Nat.mod_eq_of_lt h]

/-- The bytes of a string in UTF-8. -/
def ofText (s : String) : Bytes := s.toByteArray.data.toList

theorem ofText_append (s t : String) : ofText (s ++ t) = ofText s ++ ofText t := by
  simp [ofText]

/-- Bytes gathered into one block. -/
def pack (bytes : Bytes) : ByteArray := ⟨bytes.toArray⟩

end Bytes

/-- A decoder: a value off the front of the bytes, and the bytes after it. -/
abbrev Reader := StateT Bytes (Except CodecFault)

namespace Reader

/-- Exactly the next `n` bytes. -/
def take (n : Nat) : Reader Bytes := fun bytes =>
  let front := bytes.take n
  if front.length = n then .ok (front, bytes.drop n) else .error .shortRead

/-- A number of `width` bytes. -/
def word (width : Nat) : Reader Nat := do
  return Bytes.toNat (← take width)

/-- One byte. -/
def byte : Reader UInt8 := do
  return UInt8.ofNat (← word 1)

/-- The same reader so many times. -/
def times {α : Type} (reader : Reader α) : Nat → Reader (List α)
  | 0 => pure []
  | n + 1 => do
    let first ← reader
    let rest ← times reader n
    return first :: rest

/-- A reader that fails. -/
def fail {α : Type} (fault : CodecFault) : Reader α := fun _ => .error fault

theorem take_append (front rest : Bytes) :
    take front.length (front ++ rest) = .ok (front, rest) := by
  simp [take]

theorem word_of_take {width : Nat} {front rest bytes : Bytes}
    (h : take width bytes = .ok (front, rest)) : word width bytes = .ok (front.toNat, rest) := by
  show Except.bind (take width bytes) (fun r => .ok (r.1.toNat, r.2)) = _
  rw [h]
  rfl

theorem word_ofNat_append {width n : Nat} (h : n < Bytes.span width) (rest : Bytes) :
    word width (Bytes.ofNat width n ++ rest) = .ok (n, rest) := by
  have front := take_append (Bytes.ofNat width n) rest
  rw [Bytes.length_ofNat] at front
  rw [word_of_take front, Bytes.toNat_ofNat_of_lt h]

end Reader
end StudyArchive
