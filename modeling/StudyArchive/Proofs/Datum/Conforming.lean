import StudyArchive.Datum.Codec
import StudyArchive.Proofs.Codec.Reading
/-
# What is read from bytes conforms

The bytes of an element hold no tags, and nothing checks what was read from them: the type alone
says how they are read.  Still a reader gives nothing but values that conform to its type
(`Datum.gives_decode`), whatever the bytes: a word of 32 bits fits into 32 bits, an array is read
item by item as often as its field says, and a record field by field.
-/

namespace StudyArchive.Datum

open Reader

theorem fitsInt32_toInt64 (v : Int32) : fitsInt32 v.toInt64 := by
  simp [fitsInt32]

theorem gives_decodeElement (e : ElementType) : (decodeElement e).Gives (·.isElement e) := by
  cases e with
  | int32 =>
    refine gives_bind (gives_any _) fun n _ => gives_pure ?_
    exact fitsInt32_toInt64 (UInt32.ofNat n).toInt32
  | int64 | uint64 | real => exact gives_bind (gives_any _) fun n _ => gives_pure rfl
  | text => exact gives_bind (gives_any _) fun n _ => gives_bind (gives_any _) fun s _ =>
      gives_pure rfl

/-- An array has as many items as its field says, each of them an element. -/
theorem gives_decodeField (f : Field) : (decodeField f).Gives (·.isFieldValue f) := by
  unfold decodeField
  cases many : f.length with
  | none =>
    intro bytes v rest read
    have element : v.isElement f.element := gives_decodeElement f.element bytes v rest read
    unfold isFieldValue
    rw [many]
    exact element
  | some n =>
    have items := (gives_length_times (decodeElement f.element) n).and
      (gives_times (gives_decodeElement f.element) n)
    refine gives_bind items fun l h => gives_pure ?_
    unfold isFieldValue
    rw [many]
    simpa using h

theorem gives_decodeFields (fields : List Field) :
    (decodeFields fields).Gives fun values => (record values).conforms (.compound fields) := by
  induction fields with
  | nil => exact gives_pure rfl
  | cons f fields ih =>
    refine gives_bind (gives_decodeField f) fun v first => gives_bind ih fun values more =>
      gives_pure ?_
    simp only [conforms, Bool.and_eq_true, decide_eq_true_eq] at more
    obtain ⟨count, each⟩ := more
    simp [conforms, count, first, each]

/-- Whatever is read as an element of a type conforms to it. -/
theorem gives_decode (type : DataType) : (decode type).Gives (·.conforms type) := by
  cases type with
  | scalar e => exact gives_decodeElement e
  | compound fields =>
    exact gives_bind (gives_decodeFields fields) fun values fits => gives_pure fits

end StudyArchive.Datum
