import StudyArchive.Proofs.Datum.Conforming
import StudyArchive.Proofs.Datum.Encoding
import StudyArchive.Proofs.Datum.ReadBack
/-
# Elements one after the other

No bytes stand between the elements of a write, and none in front of them tell how long they are.
That is enough: the encoding of an element shows by itself where it ends, so a list of elements is
read back from their encodings, whatever bytes follow (`Datum.codes_in_turn`).
-/

namespace StudyArchive.Datum

open Reader

/-- An element of a type, its strings so short that four bytes tell their lengths. -/
structure Codable (type : DataType) (v : Datum) : Prop where
  conforms : v.conforms type
  shortTexts : v.ShortTexts

variable {type : DataType} {v : Datum}

/-- An element has an encoding, and is read back from it. -/
theorem Codable.exists_code (h : v.Codable type) :
    ∃ code, v.encode type = .ok code ∧ Reads (decode type) code v := by
  obtain ⟨code, encoded⟩ := exists_encode h.conforms
  exact ⟨code, encoded, reads_of_shortTexts h.conforms encoded h.shortTexts⟩

theorem exists_codes {values : List Datum} (each : ∀ v ∈ values, v.Codable type) :
    ∃ codes : List Bytes, List.Forall₂ (fun v code => v.encode type = .ok code) values codes ∧
      List.Forall₂ (Reads (decode type)) codes values := by
  induction values with
  | nil => exact ⟨[], .nil, .nil⟩
  | cons v rest ih =>
    obtain ⟨first, others⟩ := List.forall_mem_cons.1 each
    obtain ⟨code, encoded, reads⟩ := first.exists_code
    obtain ⟨codes, written, read⟩ := ih others
    exact ⟨code :: codes, .cons encoded written, .cons reads read⟩

/-- Elements of one type, of any kind: each of them has an encoding, and from the encodings one
after the other, and whatever bytes follow, as many elements are read as there were, the same ones
bit for bit, and just these bytes taken.  In particular, no encoding is the beginning of another
one.  And whatever bytes an element is read from, it is one of the type. -/
theorem codes_in_turn (type : DataType) :
    (∀ values : List Datum, (∀ v ∈ values, v.Codable type) →
      ∃ codes : List Bytes, List.Forall₂ (fun v code => v.encode type = .ok code) values codes ∧
        ∀ rest, (decode type).times values.length (codes.flatten ++ rest) = .ok (values, rest)) ∧
    (∀ (v w : Datum) (code code' : Bytes), v.Codable type → w.Codable type →
      v.encode type = .ok code → w.encode type = .ok code' → code <+: code' → v = w) ∧
    ∀ bytes v rest, decode type bytes = .ok (v, rest) → v.conforms type := by
  refine ⟨fun values each => ?_, ?_, gives_decode type⟩
  · obtain ⟨codes, written, read⟩ := exists_codes each
    exact ⟨codes, written, reads_times read⟩
  · intro v w code code' first second encoded encoded' front
    have reads := reads_of_shortTexts first.conforms encoded first.shortTexts
    have reads' := reads_of_shortTexts second.conforms encoded' second.shortTexts
    exact (reads.eq_of_prefix reads' front).1

/-- A count, two numbers and a name. -/
def sample : DataType :=
  .compound [⟨"count", .int32, none⟩, ⟨"values", .real, some 2⟩, ⟨"label", .text, none⟩]

/-- Two records, one of them with a number that is none. -/
def samples : List Datum :=
  [record [int (-1), array [real .nan, real .zero], text "x"],
    record [int 2, array [real .zero, real .zero], text ""]]

theorem codes_in_turn_of_samples :
    (∀ v ∈ samples, v.Codable sample) ∧
    ∃ codes : List Bytes, List.Forall₂ (fun v code => v.encode sample = .ok code) samples codes ∧
      (decode sample).times 2 (codes.flatten ++ [0, 1]) = .ok (samples, [0, 1]) := by
  have conform : ∀ v ∈ samples, v.conforms sample := by decide +kernel
  have short : ∀ v ∈ samples, v.ShortTexts := by
    unfold ShortTexts
    decide +kernel
  have each : ∀ v ∈ samples, v.Codable sample := fun v mem => ⟨conform v mem, short v mem⟩
  obtain ⟨codes, written, read⟩ := (codes_in_turn sample).1 samples each
  exact ⟨each, codes, written, read [0, 1]⟩

end StudyArchive.Datum
