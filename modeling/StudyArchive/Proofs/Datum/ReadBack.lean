import StudyArchive.Datum.Codec
import StudyArchive.Proofs.Codec.Reading
/-
# Elements are read back from their bytes

An element that conforms to a type is read back from its bytes, whatever bytes follow
(`Datum.reads_of_shortTexts`).  Strings keep their length in 32 bits and the encoder does not check
it, so the strings in it must be shorter than the span of 32 bits.  That they are if the whole
encoding is (`Datum.shortTexts_of_encode`); a log record is never longer.
-/

namespace StudyArchive.Datum

open Reader

/-! ## Strings -/

mutual

/-- The strings in a value. -/
def texts : Datum → List String
  | int _ | uint _ | real _ => []
  | text s => [s]
  | array items => textsOf items
  | record values => textsOf values

/-- The strings in values. -/
def textsOf : List Datum → List String
  | [] => []
  | v :: rest => v.texts ++ textsOf rest

end

/-- A value whose strings have room for their lengths. -/
def ShortTexts (v : Datum) : Prop := ∀ s ∈ v.texts, (Bytes.ofText s).length < Bytes.span 4

theorem mem_textsOf {s : String} {values : List Datum} :
    s ∈ textsOf values ↔ ∃ v ∈ values, s ∈ v.texts := by
  induction values with
  | nil => simp [textsOf]
  | cons v rest ih => simp [textsOf, ih]

theorem shortTexts_array {items : List Datum} :
    (array items).ShortTexts ↔ ∀ v ∈ items, v.ShortTexts := by
  simp only [ShortTexts, texts, mem_textsOf]
  exact ⟨fun h v mem s there => h s ⟨v, mem, there⟩, fun h s ⟨v, mem, there⟩ => h v mem s there⟩

theorem shortTexts_record {values : List Datum} :
    (record values).ShortTexts ↔ ∀ v ∈ values, v.ShortTexts := shortTexts_array

theorem length_encodeText (s : String) :
    (encodeText s).length = 4 + (Bytes.ofText s).length := by
  simp [encodeText]

/-! ## A short encoding has short strings

By recursion on the value: each string lies in the encoding of what it is part of. -/

theorem shortTexts_of_encodeElement {v : Datum} {e : ElementType} {bytes : Bytes}
    (encoded : v.encodeElement e = .ok bytes) (short : bytes.length < Bytes.span 4) :
    v.ShortTexts := by
  unfold encodeElement at encoded
  split at encoded
  case h_5 s =>
    cases encoded
    rw [length_encodeText] at short
    intro s' mem
    obtain rfl := List.mem_singleton.1 mem
    omega
  case h_6 => cases encoded
  all_goals exact fun s mem => absurd mem List.not_mem_nil

theorem shortTexts_of_encodeElements {items : List Datum} {e : ElementType} {bytes : Bytes}
    (encoded : encodeElements e items = .ok bytes) (short : bytes.length < Bytes.span 4) :
    ∀ v ∈ items, v.ShortTexts := by
  induction items generalizing bytes with
  | nil => exact fun v mem => absurd mem List.not_mem_nil
  | cons item rest ih =>
    obtain ⟨front, head, encoded⟩ := exists_of_bind_eq_ok encoded
    obtain ⟨back, tail, encoded⟩ := exists_of_bind_eq_ok encoded
    cases encoded
    rw [List.length_append] at short
    exact List.forall_mem_cons.2
      ⟨shortTexts_of_encodeElement head (by omega), ih tail (by omega)⟩

theorem shortTexts_of_encodeField {v : Datum} {f : Field} {bytes : Bytes}
    (encoded : v.encodeField f = .ok bytes) (short : bytes.length < Bytes.span 4) :
    v.ShortTexts := by
  unfold encodeField at encoded
  split at encoded
  · exact shortTexts_array.2 (shortTexts_of_encodeElements encoded short)
  · cases encoded
  · exact shortTexts_of_encodeElement encoded short

theorem shortTexts_of_encodeFields {values : List Datum} {fields : List Field} {bytes : Bytes}
    (count : values.length = fields.length) (encoded : encodeFields values fields = .ok bytes)
    (short : bytes.length < Bytes.span 4) : ∀ v ∈ values, v.ShortTexts := by
  induction values generalizing fields bytes with
  | nil => exact fun v mem => absurd mem List.not_mem_nil
  | cons v values ih =>
    cases fields with
    | nil => cases count
    | cons f fields =>
      obtain ⟨front, head, encoded⟩ := exists_of_bind_eq_ok encoded
      obtain ⟨back, tail, encoded⟩ := exists_of_bind_eq_ok encoded
      cases encoded
      rw [List.length_append] at short
      exact List.forall_mem_cons.2 ⟨shortTexts_of_encodeField head (by omega),
        ih (Nat.succ.inj count) tail (by omega)⟩

theorem shortTexts_of_encode {v : Datum} {type : DataType} {bytes : Bytes}
    (fits : v.conforms type) (encoded : v.encode type = .ok bytes)
    (short : bytes.length < Bytes.span 4) : v.ShortTexts := by
  cases type with
  | scalar e => exact shortTexts_of_encodeElement encoded short
  | compound fields =>
    cases v with
    | record values =>
      simp only [conforms, Bool.and_eq_true, decide_eq_true_eq] at fits
      exact shortTexts_record.2 (shortTexts_of_encodeFields fits.1 encoded short)
    | _ => cases encoded

/-! ## Reading back

By cases on the type, as the value conforms to it; records field by field. -/

theorem reads_element {v : Datum} {e : ElementType} {bytes : Bytes}
    (encoded : v.encodeElement e = .ok bytes) (short : v.ShortTexts) :
    Reads (decodeElement e) bytes v := by
  unfold encodeElement at encoded
  split at encoded
  case h_1 n =>
    split at encoded
    · next fits =>
      cases encoded
      have word := (reads_uint32 n.toInt32.toUInt32).bind_pure
        fun n => int (UInt32.ofNat n).toInt32.toInt64
      have back : n.toInt32.toInt64 = n := by simpa [fitsInt32] using fits
      simpa [decodeElement, back] using word
    · cases encoded
  case h_2 n =>
    cases encoded
    have word := (reads_uint64 n.toUInt64).bind_pure fun n => int (UInt64.ofNat n).toInt64
    simpa [decodeElement] using word
  case h_3 n =>
    cases encoded
    have word := (reads_uint64 n).bind_pure fun n => uint (UInt64.ofNat n)
    simpa [decodeElement] using word
  case h_4 x =>
    cases encoded
    have word := (reads_uint64 x.bits).bind_pure fun n => real ⟨UInt64.ofNat n⟩
    simpa [decodeElement] using word
  case h_5 s =>
    cases encoded
    have low := short s List.mem_cons_self
    exact (reads_word low).bind ((reads_text s).bind_pure text)
  case h_6 => cases encoded

theorem reads_elements {items : List Datum} {e : ElementType} {bytes : Bytes}
    (encoded : encodeElements e items = .ok bytes) (short : ∀ v ∈ items, v.ShortTexts) :
    Reads ((decodeElement e).times items.length) bytes items := by
  induction items generalizing bytes with
  | nil =>
    cases encoded
    exact reads_pure []
  | cons item rest ih =>
    obtain ⟨front, head, encoded⟩ := exists_of_bind_eq_ok encoded
    obtain ⟨back, tail, encoded⟩ := exists_of_bind_eq_ok encoded
    cases encoded
    obtain ⟨first, others⟩ := List.forall_mem_cons.1 short
    exact (reads_element head first).bind ((ih tail others).bind_pure _)

/-- The value of a field is read back from its bytes. -/
theorem reads_field {v : Datum} {f : Field} {bytes : Bytes} (fits : v.isFieldValue f)
    (encoded : v.encodeField f = .ok bytes) (short : v.ShortTexts) :
    Reads (decodeField f) bytes v := by
  unfold isFieldValue at fits
  unfold encodeField at encoded
  unfold decodeField
  split at fits
  · next single =>
    simp only [single] at encoded ⊢
    exact reads_element encoded short
  · next n many =>
    split at fits
    · next items =>
      simp only [many] at encoded ⊢
      have count : items.length = n := by simp_all
      rw [← count]
      exact (reads_elements encoded (shortTexts_array.1 short)).bind_pure array
    · cases fits

theorem reads_fields {values : List Datum} {fields : List Field} {bytes : Bytes}
    (count : values.length = fields.length)
    (fits : (values.zip fields).all fun (v, f) => v.isFieldValue f)
    (encoded : encodeFields values fields = .ok bytes) (short : ∀ v ∈ values, v.ShortTexts) :
    Reads (decodeFields fields) bytes values := by
  induction values generalizing fields bytes with
  | nil =>
    obtain rfl : fields = [] := List.eq_nil_of_length_eq_zero count.symm
    cases encoded
    exact reads_pure []
  | cons v values ih =>
    cases fields with
    | nil => cases count
    | cons f fields =>
      obtain ⟨front, head, encoded⟩ := exists_of_bind_eq_ok encoded
      obtain ⟨back, tail, encoded⟩ := exists_of_bind_eq_ok encoded
      cases encoded
      obtain ⟨first, others⟩ := List.forall_mem_cons.1 short
      simp only [List.zip_cons_cons, List.all_cons, Bool.and_eq_true] at fits
      have rest := ih (by simpa using count) fits.2 tail others
      exact (reads_field fits.1 head first).bind (rest.bind_pure _)

/-- A value that conforms to a type is read back from its bytes. -/
theorem reads_of_shortTexts {v : Datum} {type : DataType} {bytes : Bytes}
    (fits : v.conforms type) (encoded : v.encode type = .ok bytes) (short : v.ShortTexts) :
    Reads (decode type) bytes v := by
  cases type with
  | scalar e => exact reads_element encoded short
  | compound fields =>
    cases v with
    | record values =>
      simp only [conforms, Bool.and_eq_true, decide_eq_true_eq] at fits
      have fields := reads_fields fits.1 fits.2 encoded (shortTexts_record.1 short)
      exact fields.bind_pure record
    | _ => cases encoded

/-- So is one whose bytes are few. -/
theorem reads_of_conforms {v : Datum} {type : DataType} {bytes : Bytes}
    (fits : v.conforms type) (encoded : v.encode type = .ok bytes)
    (short : bytes.length < Bytes.span 4) : Reads (decode type) bytes v :=
  reads_of_shortTexts fits encoded (shortTexts_of_encode fits encoded short)

end StudyArchive.Datum
