import StudyArchive.Proofs.Datum.Conforming
import StudyArchive.Proofs.Log.ReadBack
/-
# Which records a frame keeps

A frame has one number for the length of a field, and 0 stands for no array.  So no type that was
read from a frame has an array field of length 0 (`Frame.gives_type`), and a record is read back
from its frame exactly when its type has no such field (`Record.reads_back_iff`).  A record type
with a field of no elements is let through when it is written, and is lost
(`Record.loses_empty_field`).
-/

namespace StudyArchive

namespace Frame

open Reader

/-- A field that is read is no array of length 0. -/
theorem gives_field : getField.Gives fun f => f.length ≠ some 0 := by
  refine gives_bind (gives_any _) fun name _ => gives_bind (gives_any _) fun tag _ =>
    gives_bind (gives_any _) fun element _ => gives_bind (gives_any _) fun length _ =>
      gives_pure ?_
  show (if length = 0 then none else some length) ≠ some 0
  split
  · simp
  · simpa using ‹_›

theorem gives_type : getType.Gives fun type => type.isPlain := by
  refine gives_bind (gives_any _) fun tag _ => ?_
  split
  · refine gives_bind (gives_any _) fun count _ =>
      gives_bind (gives_times gives_field count) fun fields plain => gives_pure ?_
    simpa [DataType.isPlain] using plain
  · exact gives_bind (gives_any _) fun element _ => gives_pure rfl

end Frame

namespace Record

/-- The type of the elements that a record is about, if it makes a dataset. -/
def type? : Record → Option DataType
  | createDataset _ type .. => some type
  | _ => none

theorem isPlain_iff {r : Record} :
    r.isPlain ↔ r.isFilled ∧ ∀ type ∈ r.type?, type.isPlain := by
  cases r <;> simp [isPlain, isFilled, type?, and_comm]

end Record

namespace Frame

open Reader

/-- Whatever payload is read, a fill in it conforms to the type before it. -/
theorem gives_payload (kind : RecordKind) : (getPayload kind).Gives fun r => r.isPlain := by
  cases kind with
  | createDataset =>
    refine gives_bind (gives_any _) fun path _ => gives_bind gives_type fun type plain =>
      gives_bind (gives_any _) fun dims _ => gives_bind (gives_any _) fun extensible _ =>
      gives_bind (gives_any _) fun chunkRows _ =>
        gives_bind (Datum.gives_decode type) fun fill fits => gives_pure ?_
    exact Record.isPlain_iff.2 ⟨fits, by simpa [Record.type?] using plain⟩
  | createGroup => exact gives_bind (gives_any _) fun _ _ => gives_pure rfl
  | extend | markScale | softLink =>
    exact gives_bind (gives_any _) fun _ _ => gives_bind (gives_any _) fun _ _ => gives_pure rfl
  | setAttribute =>
    exact gives_bind (gives_any _) fun _ _ => gives_bind (gives_any _) fun _ _ =>
      gives_bind (gives_any _) fun _ _ => gives_pure rfl
  | attachScale =>
    exact gives_bind (gives_any _) fun _ _ => gives_bind (gives_any _) fun _ _ =>
      gives_bind (gives_any _) fun _ _ => gives_bind (gives_any _) fun _ _ => gives_pure rfl
  | write =>
    exact gives_bind (gives_any _) fun _ _ => gives_bind (gives_any _) fun _ _ =>
      gives_bind (gives_any _) fun _ _ => gives_bind (gives_any _) fun _ _ =>
        gives_bind (gives_any _) fun _ _ => gives_pure rfl

end Frame

namespace Record

/-- A record that was decoded has a fill of its type, and no array field of length 0. -/
theorem isFilled_and_isPlain_of_decode {bytes : Bytes} {r : Record} (h : decode bytes = .ok r) :
    r.isFilled ∧ ∀ type ∈ r.type?, type.isPlain := by
  unfold decode at h
  split at h
  · cases h
  · split at h
    · cases h
    · next kind _ =>
      dsimp only at h
      split at h
      · cases h
      · split at h
        · cases h
        · cases read : Frame.getPayload kind
              ((bytes.take (Bytes.toNat (bytes.take 4))).drop Frame.overhead) with
          | error fault =>
            rw [read] at h
            cases h
          | ok result =>
            rw [read] at h
            cases h
            exact isPlain_iff.1 (Frame.gives_payload kind _ _ _ read)

/-- The type of a record that was decoded has no array field of length 0. -/
theorem isPlain_of_decode {bytes : Bytes} {r : Record} (h : decode bytes = .ok r) :
    ∀ type ∈ r.type?, type.isPlain :=
  (isFilled_and_isPlain_of_decode h).2

/-- A record whose fill is of its type is read back from its frame, the whole of it, exactly if its
type has no array field of length 0. -/
theorem reads_back_iff {r : Record} {bytes : Bytes} (filled : r.isFilled)
    (h : r.encode = .ok bytes) :
    decode bytes = .ok r ↔ ∀ type ∈ r.type?, type.isPlain :=
  ⟨isPlain_of_decode, fun plain => decode_encode (isPlain_iff.2 ⟨filled, plain⟩) h⟩

/-- A dataset of records that pair a number with an array of reals. -/
def ofPairs (length : Nat) (reals : List Binary64) : Record :=
  .createDataset (.ofText "/c") (.compound [⟨"k", .int32, none⟩, ⟨"x", .real, some length⟩])
    [0] true 16 (.record [.int 4, .array (reals.map .real)])

/-- The array of the fill is a NaN with a payload and the negative zero. -/
theorem reads_back_iff_of_pairs : ∃ bytes,
    (ofPairs 2 [⟨0x7FF8000000000001⟩, ⟨0x8000000000000000⟩]).isFilled ∧
    (ofPairs 2 [⟨0x7FF8000000000001⟩, ⟨0x8000000000000000⟩]).encode = .ok bytes ∧
    decode bytes = .ok (ofPairs 2 [⟨0x7FF8000000000001⟩, ⟨0x8000000000000000⟩]) := by
  have filled : (ofPairs 2 [⟨0x7FF8000000000001⟩, ⟨0x8000000000000000⟩]).isFilled := by decide
  have written :
      (ofPairs 2 [⟨0x7FF8000000000001⟩, ⟨0x8000000000000000⟩]).encode.toOption.isSome := by
    decide +kernel
  obtain ⟨bytes, written⟩ := Option.isSome_iff_exists.1 written
  replace written := eq_ok_of_toOption written
  exact ⟨bytes, filled, written, (reads_back_iff filled written).2 (by decide)⟩

/-- With no element in the array, a frame is written, and no record is read back from it. -/
theorem loses_empty_field : ∃ bytes, (ofPairs 0 []).isFilled ∧
    (ofPairs 0 []).encode = .ok bytes ∧ ∀ r, decode bytes ≠ .ok r := by
  have filled : (ofPairs 0 []).isFilled := by decide
  have lost : ((ofPairs 0 []).encode.toOption).any fun bytes =>
      (decode bytes).toOption.isNone := by decide +kernel
  obtain ⟨bytes, written, refused⟩ := (Option.any_eq_true ..).1 lost
  refine ⟨bytes, filled, eq_ok_of_toOption written, fun r read => ?_⟩
  rw [read] at refused
  cases refused

end Record
end StudyArchive
