import StudyArchive.Log.Replay
import StudyArchive.Proofs.Codec.Reading
/-
# Headers are read back

A header is read back from its bytes, and the bytes that a header was read from are its bytes: all
128 of them count.
-/

namespace StudyArchive.Header

open Reader

theorem reads_block {n : Nat} (v : Vector UInt8 n) : Reads (block n) v.toList v := by
  intro rest
  have front : (v.toList ++ rest).take n = v.toList := List.take_left' (by simp)
  have back : (v.toList ++ rest).drop n = rest := List.drop_left' (by simp)
  have same : v.toList.toArray = v.toArray := by simp [Vector.toList]
  simp [block, front, back, same]

theorem block_eq_ok {n : Nat} {v : Vector UInt8 n} {bytes rest : Bytes}
    (h : block n bytes = .ok (v, rest)) : bytes = v.toList ++ rest := by
  unfold block at h
  split at h
  · cases h
    simp
  · cases h

theorem reads_encode (h : Header) : Reads read h.encode h := by
  have bytes : h.encode = h.encode ++ [] := (List.append_nil _).symm
  rw [bytes]
  simp only [encode, List.append_assoc]
  unfold read
  refine (reads_uint64 h.magic).bind ?_
  refine (reads_uint32 h.format).bind ?_
  refine (reads_uint32 h.flags).bind ?_
  refine (reads_block h.runId).bind ?_
  refine (reads_uint64 h.createdAt).bind ?_
  refine (reads_uint16 h.schema.major).bind ?_
  refine (reads_uint16 h.schema.minor).bind ?_
  refine (reads_uint16 h.schema.patch).bind ?_
  refine (reads_block h.reserved).bind ?_
  simpa using reads_pure h

/-- A header is read back from its bytes, whatever follows. -/
theorem decode_encode_append (h : Header) (rest : Bytes) : decode (h.encode ++ rest) = .ok h := by
  rw [decode, if_neg (by rw [List.length_append, length_encode]; omega), reads_encode h rest]
  rfl

theorem read_eq_ok {bytes rest : Bytes} {h : Header} (found : read bytes = .ok (h, rest)) :
    bytes = h.encode ++ rest := by
  unfold read at found
  obtain ⟨⟨magic, bytes₁⟩, first, found⟩ := exists_of_bind_eq_ok found
  obtain ⟨⟨format, bytes₂⟩, second, found⟩ := exists_of_bind_eq_ok found
  obtain ⟨⟨flags, bytes₃⟩, third, found⟩ := exists_of_bind_eq_ok found
  obtain ⟨⟨runId, bytes₄⟩, fourth, found⟩ := exists_of_bind_eq_ok found
  obtain ⟨⟨createdAt, bytes₅⟩, fifth, found⟩ := exists_of_bind_eq_ok found
  obtain ⟨⟨major, bytes₆⟩, sixth, found⟩ := exists_of_bind_eq_ok found
  obtain ⟨⟨minor, bytes₇⟩, seventh, found⟩ := exists_of_bind_eq_ok found
  obtain ⟨⟨patch, bytes₈⟩, eighth, found⟩ := exists_of_bind_eq_ok found
  obtain ⟨⟨reserved, bytes₉⟩, ninth, found⟩ := exists_of_bind_eq_ok found
  cases found
  obtain ⟨magicSmall, rfl⟩ := word_eq_ok first
  obtain ⟨formatSmall, rfl⟩ := word_eq_ok second
  obtain ⟨flagsSmall, rfl⟩ := word_eq_ok third
  obtain rfl := block_eq_ok fourth
  obtain ⟨createdSmall, rfl⟩ := word_eq_ok fifth
  obtain ⟨majorSmall, rfl⟩ := word_eq_ok sixth
  obtain ⟨minorSmall, rfl⟩ := word_eq_ok seventh
  obtain ⟨patchSmall, rfl⟩ := word_eq_ok eighth
  obtain rfl := block_eq_ok ninth
  simp only [encode, UInt64.toNat_ofNat_of_lt' magicSmall, UInt32.toNat_ofNat_of_lt' formatSmall,
    UInt32.toNat_ofNat_of_lt' flagsSmall, UInt64.toNat_ofNat_of_lt' createdSmall,
    UInt16.toNat_ofNat_of_lt' majorSmall, UInt16.toNat_ofNat_of_lt' minorSmall,
    UInt16.toNat_ofNat_of_lt' patchSmall, List.append_assoc]

/-- Bytes with a header begin with the header's bytes. -/
theorem exists_eq_encode_append {bytes : Bytes} {h : Header} (decoded : decode bytes = .ok h) :
    ∃ rest, bytes = h.encode ++ rest := by
  unfold decode at decoded
  split at decoded
  · cases decoded
  · cases found : read bytes with
    | error fault => rw [found] at decoded; cases decoded
    | ok result =>
      obtain ⟨back, rest⟩ := result
      rw [found] at decoded
      cases decoded
      exact ⟨rest, read_eq_ok found⟩

end StudyArchive.Header
