import StudyArchive.Log.Frame
import StudyArchive.Proofs.Datum.ReadBack
/-
# Records are read back from their frames

Every record whose frame says all of it is read back from the frame (`Record.decode_encode`).  Two
things a frame does not say: that an array field has length 0, since a field without a length is
written alike, and a fill that is no element of its dataset's type.
-/

namespace StudyArchive

/-- No field of the type is an array of length 0. -/
def DataType.isPlain : DataType → Bool
  | .scalar _ => true
  | .compound fields => fields.all (·.length ≠ some 0)

/-- Whether a record's frame says all of it. -/
def Record.isPlain : Record → Bool
  | .createDataset _ type _ _ _ fill => type.isPlain && fill.conforms type
  | _ => true

/-- A record that makes a dataset has a fill of the dataset's type. -/
def Record.isFilled : Record → Bool
  | .createDataset _ type _ _ _ fill => fill.conforms type
  | _ => true

theorem RecordKind.tag_lt (k : RecordKind) : k.tag < Bytes.span 1 := by
  cases k <;> decide

namespace Frame

open Reader

/-! ## Lengths, extents and strings -/

theorem putLength_eq_ok {n : Nat} {bytes : Bytes} (h : putLength n = .ok bytes) :
    n < Bytes.span 4 ∧ bytes = Bytes.ofNat 4 n := by
  unfold putLength at h
  split at h <;> cases h
  exact ⟨‹_›, rfl⟩

theorem reads_length {n : Nat} {bytes : Bytes} (h : putLength n = .ok bytes) :
    Reads getLength bytes n := by
  obtain ⟨small, rfl⟩ := putLength_eq_ok h
  exact reads_word small

theorem reads_extent {n : Nat} {bytes : Bytes} (h : putExtent n = .ok bytes) :
    Reads getExtent bytes n := by
  unfold putExtent at h
  split at h
  · cases h
    exact reads_word ‹_›
  · cases h

theorem reads_string {s : String} {bytes : Bytes} (h : putText s = .ok bytes) :
    Reads getText bytes s := by
  obtain ⟨length, written, h⟩ := exists_of_bind_eq_ok h
  cases h
  exact (reads_length written).bind (reads_text s)

theorem reads_path {p : Path} {bytes : Bytes} (h : putPath p = .ok bytes) :
    Reads getPath bytes p := by
  have read := (reads_string h).bind_pure Path.ofText
  rwa [Path.ofText_text] at read

/-! ## Lists of parts -/

theorem reads_all {α : Type} {put : α → Except CodecFault Bytes} {get : Reader α} {l : List α}
    {bytes : Bytes} (each : ∀ x ∈ l, ∀ part, put x = .ok part → Reads get part x)
    (h : putAll put l = .ok bytes) : Reads (get.times l.length) bytes l := by
  induction l generalizing bytes with
  | nil =>
    cases h
    exact reads_pure []
  | cons x rest ih =>
    obtain ⟨front, head, h⟩ := exists_of_bind_eq_ok h
    obtain ⟨back, tail, h⟩ := exists_of_bind_eq_ok h
    cases h
    have more := ih (fun y hy => each y (List.mem_cons_of_mem _ hy)) tail
    exact (each x (List.mem_cons_self ..) front head).bind (more.bind_pure _)

theorem reads_extents {dims : List Nat} {bytes : Bytes} (h : putExtents dims = .ok bytes) :
    Reads getExtents bytes dims := by
  obtain ⟨front, length, h⟩ := exists_of_bind_eq_ok h
  obtain ⟨back, parts, h⟩ := exists_of_bind_eq_ok h
  cases h
  exact (reads_length length).bind (reads_all (fun _ _ _ => reads_extent) parts)

/-! ## Types and attribute values -/

theorem reads_element {e : ElementType} {β : Type} {next : ElementType → Reader β} {back : Bytes}
    {w : β} (rest : Reads (next e) back w) :
    Reads (word 1 >>= fun tag => getElement tag >>= next) (Bytes.ofNat 1 e.tag ++ back) w := by
  have small : e.tag < Bytes.span 1 := by cases e <;> decide
  refine (reads_word small).bind ?_
  simpa [getElement, ElementType.ofTag?_tag] using rest

theorem reads_field {f : Field} {bytes : Bytes} (plain : f.length ≠ some 0)
    (h : putField f = .ok bytes) : Reads getField bytes f := by
  obtain ⟨name, named, h⟩ := exists_of_bind_eq_ok h
  obtain ⟨length, measured, h⟩ := exists_of_bind_eq_ok h
  cases h
  have back : (if f.length.getD 0 = 0 then none else some (f.length.getD 0)) = f.length := by
    cases found : f.length with
    | none => rfl
    | some n =>
      have positive : n ≠ 0 := fun zero => plain (by rw [found, zero])
      simp [positive]
  have last := (reads_length measured).bind_pure fun n =>
    (⟨f.name, f.element, if n = 0 then none else some n⟩ : Field)
  simp only [back] at last
  rw [List.append_assoc]
  exact (reads_string named).bind (reads_element last)

theorem reads_type {type : DataType} {bytes : Bytes} (plain : type.isPlain)
    (h : putType type = .ok bytes) : Reads getType bytes type := by
  cases type with
  | scalar e =>
    cases h
    have small : e.tag < Bytes.span 1 := by cases e <;> decide
    have other : e.tag ≠ compoundTag := by cases e <;> decide
    have read : Reads getType (Bytes.ofNat 1 e.tag ++ []) (.scalar e) := by
      refine (reads_word small).bind ?_
      simpa [other, getElement, ElementType.ofTag?_tag] using reads_pure (DataType.scalar e)
    simpa using read
  | compound fields =>
    obtain ⟨length, counted, h⟩ := exists_of_bind_eq_ok h
    obtain ⟨parts, listed, h⟩ := exists_of_bind_eq_ok h
    cases h
    have each : ∀ f ∈ fields, f.length ≠ some 0 := by simpa [DataType.isPlain] using plain
    have inner := reads_all (fun f hf _ => reads_field (each f hf)) listed
    have tagged : Reads getType (Bytes.ofNat 1 compoundTag ++ (length ++ parts))
        (.compound fields) := by
      refine (reads_word (by decide)).bind ?_
      simpa using (reads_length counted).bind (inner.bind_pure DataType.compound)
    simpa using tagged

theorem reads_attr {v : AttrValue} {bytes : Bytes} (h : putAttr v = .ok bytes) :
    Reads getAttr bytes v := by
  cases v with
  | int n =>
    cases h
    refine (reads_word (by decide)).bind ?_
    have word := (reads_uint64 n.toUInt64).bind_pure
      fun n => AttrValue.int (UInt64.ofNat n).toInt64
    simpa using word
  | real x =>
    cases h
    refine (reads_word (by decide)).bind ?_
    have word := (reads_uint64 x.bits).bind_pure fun n => AttrValue.real ⟨UInt64.ofNat n⟩
    simpa using word
  | text s =>
    obtain ⟨string, written, h⟩ := exists_of_bind_eq_ok h
    cases h
    exact (reads_word (by decide)).bind ((reads_string written).bind_pure AttrValue.text)

/-! ## Payloads -/

/-- A record is read back from its payload. -/
theorem reads_payload {r : Record} {bytes : Bytes} (plain : r.isPlain)
    (h : putPayload r = .ok bytes) (short : bytes.length < Bytes.span 4) :
    Reads (getPayload r.kind) bytes r := by
  cases r with
  | createGroup path => exact (reads_path h).bind_pure _
  | createDataset path type dims extensible chunkRows fill =>
    obtain ⟨pathBytes, hpath, h⟩ := exists_of_bind_eq_ok h
    obtain ⟨typeBytes, htype, h⟩ := exists_of_bind_eq_ok h
    obtain ⟨dimBytes, hdims, h⟩ := exists_of_bind_eq_ok h
    obtain ⟨chunkBytes, hchunk, h⟩ := exists_of_bind_eq_ok h
    obtain ⟨fillBytes, hfill, h⟩ := exists_of_bind_eq_ok h
    cases h
    simp only [Record.isPlain, Bool.and_eq_true] at plain
    simp only [List.length_append] at short
    have flag : extensible.toNat < Bytes.span 1 := by cases extensible <;> decide
    have back : decide (extensible.toNat ≠ 0) = extensible := by cases extensible <;> rfl
    have last : Reads (Datum.decode type >>= fun fill => pure <| Record.createDataset path type dims
        (decide (extensible.toNat ≠ 0)) chunkRows fill) fillBytes
        (.createDataset path type dims extensible chunkRows fill) := by
      rw [back]
      exact (Datum.reads_of_conforms plain.2 hfill (by omega)).bind_pure _
    simp only [List.append_assoc]
    exact (reads_path hpath).bind <| (reads_type plain.1 htype).bind <|
      (reads_extents hdims).bind <| (reads_word flag).bind <| (reads_extent hchunk).bind last
  | extend path extent =>
    obtain ⟨pathBytes, hpath, h⟩ := exists_of_bind_eq_ok h
    obtain ⟨extentBytes, hextent, h⟩ := exists_of_bind_eq_ok h
    cases h
    exact (reads_path hpath).bind ((reads_extent hextent).bind_pure _)
  | write path start count payload =>
    obtain ⟨pathBytes, hpath, h⟩ := exists_of_bind_eq_ok h
    obtain ⟨startBytes, hstart, h⟩ := exists_of_bind_eq_ok h
    obtain ⟨countBytes, hcount, h⟩ := exists_of_bind_eq_ok h
    obtain ⟨lengthBytes, hlength, h⟩ := exists_of_bind_eq_ok h
    cases h
    simp only [List.append_assoc]
    exact (reads_path hpath).bind <| (reads_extents hstart).bind <| (reads_extents hcount).bind <|
      (reads_length hlength).bind ((reads_take payload).bind_pure _)
  | setAttribute path name value =>
    obtain ⟨pathBytes, hpath, h⟩ := exists_of_bind_eq_ok h
    obtain ⟨nameBytes, hname, h⟩ := exists_of_bind_eq_ok h
    obtain ⟨valueBytes, hvalue, h⟩ := exists_of_bind_eq_ok h
    cases h
    simp only [List.append_assoc]
    exact (reads_path hpath).bind <| (reads_string hname).bind ((reads_attr hvalue).bind_pure _)
  | markScale path name =>
    obtain ⟨pathBytes, hpath, h⟩ := exists_of_bind_eq_ok h
    obtain ⟨nameBytes, hname, h⟩ := exists_of_bind_eq_ok h
    cases h
    exact (reads_path hpath).bind ((reads_string hname).bind_pure _)
  | attachScale dataset scale label axis =>
    obtain ⟨datasetBytes, hdataset, h⟩ := exists_of_bind_eq_ok h
    obtain ⟨scaleBytes, hscale, h⟩ := exists_of_bind_eq_ok h
    obtain ⟨labelBytes, hlabel, h⟩ := exists_of_bind_eq_ok h
    obtain ⟨axisBytes, haxis, h⟩ := exists_of_bind_eq_ok h
    cases h
    simp only [List.append_assoc]
    exact (reads_path hdataset).bind <| (reads_path hscale).bind <|
      (reads_string hlabel).bind ((reads_length haxis).bind_pure _)
  | softLink link target =>
    obtain ⟨linkBytes, hlink, h⟩ := exists_of_bind_eq_ok h
    obtain ⟨targetBytes, htarget, h⟩ := exists_of_bind_eq_ok h
    cases h
    exact (reads_path hlink).bind ((reads_path htarget).bind_pure _)

end Frame

namespace Record

/-! ## Frames -/

/-- A frame is the number of its bytes, the checksum, the kind and the payload. -/
theorem encode_eq_ok {r : Record} {bytes : Bytes} (h : r.encode = .ok bytes) :
    ∃ payload, Frame.putPayload r = .ok payload ∧ Frame.overhead + payload.length < Bytes.span 4 ∧
      bytes = Bytes.ofNat 4 (Frame.overhead + payload.length) ++
        (Bytes.ofNat 4 (Checksum.crc32 payload).toNat ++
          (Bytes.ofNat 1 r.kind.tag ++ payload)) := by
  obtain ⟨payload, written, h⟩ := exists_of_bind_eq_ok h
  obtain ⟨length, measured, h⟩ := exists_of_bind_eq_ok h
  cases h
  obtain ⟨short, rfl⟩ := Frame.putLength_eq_ok measured
  exact ⟨payload, written, short, by simp only [List.append_assoc]⟩

theorem overhead_le_of_encode {r : Record} {bytes : Bytes} (h : r.encode = .ok bytes) :
    Frame.overhead ≤ bytes.length := by
  obtain ⟨payload, -, -, rfl⟩ := encode_eq_ok h
  simp [Frame.overhead]
  omega

/-- A frame begins with the number of its bytes. -/
theorem length_of_encode {r : Record} {bytes : Bytes} (h : r.encode = .ok bytes) :
    Bytes.toNat (bytes.take 4) = bytes.length := by
  obtain ⟨payload, -, short, rfl⟩ := encode_eq_ok h
  rw [List.take_left' (Bytes.length_ofNat 4 _), Bytes.toNat_ofNat_of_lt short]
  simp [Frame.overhead]
  omega

/-- A record whose frame says all of it is read back from the frame. -/
theorem decode_encode {r : Record} {bytes : Bytes} (plain : r.isPlain)
    (h : r.encode = .ok bytes) : decode bytes = .ok r := by
  have size := length_of_encode h
  have long := overhead_le_of_encode h
  obtain ⟨payload, written, short, layout⟩ := encode_eq_ok h
  have kinded : RecordKind.ofTag? (Bytes.toNat ((bytes.drop 8).take 1)) = some r.kind := by
    have part : (bytes.drop 8).take 1 = Bytes.ofNat 1 r.kind.tag := by
      rw [layout]
      simp [List.drop_append, List.take_append]
    rw [part, Bytes.toNat_ofNat_of_lt r.kind.tag_lt, RecordKind.ofTag?_tag]
  have summed : Bytes.toNat ((bytes.drop 4).take 4) = (Checksum.crc32 payload).toNat := by
    have part : (bytes.drop 4).take 4 = Bytes.ofNat 4 (Checksum.crc32 payload).toNat := by
      rw [layout]
      simp
    rw [part, Bytes.toNat_ofNat_of_lt (UInt32.toNat_lt _)]
  have inner : (bytes.take bytes.length).drop Frame.overhead = payload := by
    rw [List.take_length, layout]
    simp [Frame.overhead, List.drop_append, List.drop_eq_nil_of_le]
  have read := Frame.reads_payload plain written (by simp only [Frame.overhead] at short; omega)
  unfold decode
  rw [if_neg (by omega), size, kinded]
  simp only [inner, summed]
  rw [if_neg (by omega), if_neg (by simp), read.all]
  rfl

end Record
end StudyArchive
