import Mathlib.Tactic.Common
import StudyArchive.Codec.Checksum
/-
# What the checksum tells apart

A bit of the division can be taken back: the polynomial has its top bit set, so the top bit of what
a division leaves is the low bit of what it was given.  Hence two messages of one length that differ
in one byte only have different checksums (`Checksum.crc32_set_ne`): up to that byte the divisions
agree, that byte parts them, and no later byte brings them together again.

Nothing of the kind holds of messages of different lengths.
-/

namespace StudyArchive.Checksum

/-! ## One bit

Dividing by one more bit can be taken back, since the top bit of the result tells whether the
polynomial was taken off. -/

/-- The polynomial, as bits. -/
def polynomial : BitVec 32 := 0xEDB88320#32

/-- A remainder is odd if its lowest bit is set. -/
theorem odd_iff (crc : UInt32) : crc &&& 1 = 1 ↔ crc.toBitVec.getLsbD 0 = true := by
  rw [← UInt32.toNat_inj, UInt32.toNat_and]
  show crc.toNat &&& 1 = 1 ↔ crc.toNat.testBit 0 = true
  rw [Nat.and_one_is_mod, Nat.testBit_zero, decide_eq_true_iff]

/-- A division moves the bits down by one, and adds the polynomial where the lowest was set. -/
theorem getLsbD_bit (crc : UInt32) (k : Nat) : (bit crc).toBitVec.getLsbD k =
    (crc.toBitVec.getLsbD (k + 1) ^^ (crc.toBitVec.getLsbD 0 && polynomial.getLsbD k)) := by
  have moved : (crc >>> 1).toBitVec.getLsbD k = crc.toBitVec.getLsbD (k + 1) := by
    rw [UInt32.toBitVec_shiftRight]
    simp [Nat.add_comm]
  have added : (0xEDB88320 : UInt32).toBitVec = polynomial := rfl
  unfold bit
  by_cases low : crc &&& 1 = 1
  · rw [if_pos low, UInt32.toBitVec_xor, BitVec.getLsbD_xor, moved, added, (odd_iff crc).1 low,
      Bool.true_and]
  · have clear : crc.toBitVec.getLsbD 0 = false := by
      simpa using mt (odd_iff crc).2 low
    rw [if_neg low, moved, clear, Bool.false_and, Bool.xor_false]

/-- The top bit after a division is the low bit before it. -/
theorem getLsbD_bit_top (crc : UInt32) :
    (bit crc).toBitVec.getLsbD 31 = crc.toBitVec.getLsbD 0 := by
  have beyond : crc.toBitVec.getLsbD 32 = false := BitVec.getLsbD_of_ge _ _ (Nat.le_refl 32)
  have top : polynomial.getLsbD 31 = true := by decide
  rw [getLsbD_bit, beyond, top, Bool.and_true, Bool.false_xor]

theorem bit_injective {a b : UInt32} (same : bit a = bit b) : a = b := by
  have low : a.toBitVec.getLsbD 0 = b.toBitVec.getLsbD 0 := by
    rw [← getLsbD_bit_top a, ← getLsbD_bit_top b, same]
  apply UInt32.toBitVec_inj.1
  apply BitVec.eq_of_getLsbD_eq
  intro k inside
  cases k with
  | zero => exact low
  | succ k =>
    have here : (bit a).toBitVec.getLsbD k = (bit b).toBitVec.getLsbD k := by rw [same]
    rw [getLsbD_bit, getLsbD_bit, low] at here
    exact Bool.xor_left_inj.1 here

/-! ## Bytes

What can be taken back bit by bit can be taken back byte by byte, and so two remainders that
differ go on to differ. -/

theorem bits_injective (n : Nat) {a b : UInt32} (same : bits n a = bits n b) : a = b := by
  induction n generalizing a b with
  | zero => exact same
  | succ n ih => exact bit_injective (ih same)

theorem step_injective {crc crc' : UInt32} {b : UInt8} (same : step crc b = step crc' b) :
    crc = crc' := (UInt32.xor_left_inj _).1 (bits_injective 8 same)

theorem step_byte_injective {crc : UInt32} {b b' : UInt8} (same : step crc b = step crc b') :
    b = b' := by
  have word : b.toUInt32 = b'.toUInt32 := (UInt32.xor_right_inj _).1 (bits_injective 8 same)
  simpa using congrArg UInt32.toUInt8 word

/-- Divisions that part do not come together again over the same bytes. -/
theorem foldl_step_injective {crc crc' : UInt32} {bytes : Bytes}
    (same : bytes.foldl step crc = bytes.foldl step crc') : crc = crc' := by
  induction bytes generalizing crc crc' with
  | nil => exact same
  | cons b rest ih => exact step_injective (ih same)

/-- One byte changed, and the checksum is another. -/
theorem crc32_set_ne {bytes : Bytes} {i : Nat} (inside : i < bytes.length) {x : UInt8}
    (other : bytes[i] ≠ x) : crc32 (bytes.set i x) ≠ crc32 bytes := by
  intro same
  have parted : ∀ b : UInt8, (bytes.take i ++ b :: bytes.drop (i + 1)).foldl step 0xFFFFFFFF =
      (bytes.drop (i + 1)).foldl step (step ((bytes.take i).foldl step 0xFFFFFFFF) b) := by
    intro b
    rw [List.foldl_append, List.foldl_cons]
  have whole : bytes.take i ++ bytes[i] :: bytes.drop (i + 1) = bytes := by simp
  have changed : bytes.take i ++ x :: bytes.drop (i + 1) = bytes.set i x := by
    rw [List.set_eq_take_append_cons_drop, if_pos inside]
  have folds : (bytes.set i x).foldl step 0xFFFFFFFF = bytes.foldl step 0xFFFFFFFF :=
    UInt32.not_inj.1 same
  have after := parted x
  have before := parted bytes[i]
  rw [changed] at after
  rw [whole] at before
  have met := after.symm.trans (folds.trans before)
  exact other (step_byte_injective (foldl_step_injective met)).symm

end StudyArchive.Checksum
