import StudyArchive.Proofs.Datum.ReadBack
import StudyArchive.Log.Frame
/-
# Readers that look at no more than they take

What a reader has read, it reads again when more bytes follow: no layout is decided by bytes behind
it (`Reader.Steady`).  So a reader that takes all of some bytes takes no first part of them
(`Reader.Reads.refuses_front`), which is why a payload that lost its end is refused even where its
checksum happens to be right.
-/

namespace StudyArchive

variable {α β : Type}

namespace Reader

/-- A sequence of readers succeeds if each does, the second on what the first leaves. -/
theorem bind_eq_ok {reader : Reader α} {next : α → Reader β} {bytes rest : Bytes} {w : β}
    (h : (reader >>= next) bytes = .ok (w, rest)) :
    ∃ v between, reader bytes = .ok (v, between) ∧ next v between = .ok (w, rest) := by
  obtain ⟨⟨v, between⟩, head, tail⟩ := exists_of_bind_eq_ok
    (x := reader bytes) (f := fun r => next r.1 r.2) h
  exact ⟨v, between, head, tail⟩

/-- What is read, is read alike with more bytes behind it, which stay. -/
def Steady (reader : Reader α) : Prop :=
  ∀ bytes v rest more, reader bytes = .ok (v, rest) → reader (bytes ++ more) = .ok (v, rest ++ more)

theorem steady_pure (v : α) : Steady (pure v) := by
  intro bytes w rest more read
  cases read
  rfl

theorem steady_fail (fault : CodecFault) : Steady (fail fault : Reader α) := by
  intro bytes w rest more read
  cases read

theorem Steady.bind {reader : Reader α} {next : α → Reader β} (first : Steady reader)
    (second : ∀ v, Steady (next v)) : Steady (reader >>= next) := by
  intro bytes w rest more read
  obtain ⟨v, between, head, tail⟩ := bind_eq_ok read
  show Except.bind (reader (bytes ++ more)) (fun r => next r.1 r.2) = _
  rw [first bytes v between more head]
  exact second v between w rest more tail

theorem Steady.bind_pure {reader : Reader α} (f : α → β) (h : Steady reader) :
    Steady (reader >>= fun x => pure (f x)) :=
  h.bind fun v => steady_pure (f v)

theorem steady_take (n : Nat) : Steady (take n) := by
  intro bytes front rest more read
  obtain ⟨size, rfl⟩ := take_eq_ok read
  rw [List.append_assoc, ← size]
  exact take_append front (rest ++ more)

theorem steady_word (width : Nat) : Steady (word width) := (steady_take width).bind_pure _

theorem steady_text (n : Nat) : Steady (text n) := by
  refine (steady_take n).bind fun bytes => ?_
  split
  · exact steady_pure _
  · exact steady_fail _

theorem Steady.times {reader : Reader α} (each : Steady reader) (n : Nat) :
    Steady (reader.times n) := by
  induction n with
  | zero => exact steady_pure []
  | succ n ih => exact each.bind fun first => ih.bind_pure _

/-- A reader that takes all of these bytes takes no first part of them. -/
theorem Reads.refuses_front {reader : Reader α} {front back : Bytes} {v : α}
    (h : Reads reader (front ++ back) v) (steady : Steady reader) (cut : back ≠ []) :
    ∃ fault, reader front = .error fault := by
  cases read : reader front with
  | error fault => exact ⟨fault, rfl⟩
  | ok result =>
    obtain ⟨w, rest⟩ := result
    have again := steady front w rest back read
    rw [h.all] at again
    simp only [Except.ok.injEq, Prod.mk.injEq] at again
    exact absurd (List.append_eq_nil_iff.1 again.2.symm).2 cut

end Reader

/-! ## Elements -/

namespace Datum

open Reader

theorem steady_decodeElement (e : ElementType) : Steady (decodeElement e) := by
  cases e with
  | int32 => exact (steady_word 4).bind_pure _
  | int64 | uint64 | real => exact (steady_word 8).bind_pure _
  | text => exact (steady_word 4).bind fun n => (steady_text n).bind_pure _

theorem steady_decodeField (f : Field) : Steady (decodeField f) := by
  unfold decodeField
  split
  · next n _ => exact ((steady_decodeElement f.element).times n).bind_pure _
  · exact steady_decodeElement f.element

theorem steady_decodeFields (fields : List Field) : Steady (decodeFields fields) := by
  induction fields with
  | nil => exact steady_pure []
  | cons f rest ih => exact (steady_decodeField f).bind fun first => ih.bind_pure _

theorem steady_decode (type : DataType) : Steady (decode type) := by
  cases type with
  | scalar e => exact steady_decodeElement e
  | compound fields => exact (steady_decodeFields fields).bind_pure _

end Datum

/-! ## Payloads -/

namespace Frame

open Reader

theorem steady_getLength : Steady getLength := steady_word 4

theorem steady_getExtent : Steady getExtent := steady_word 8

theorem steady_getText : Steady getText := steady_getLength.bind steady_text

theorem steady_getPath : Steady getPath := steady_getText.bind_pure _

theorem steady_getExtents : Steady getExtents := steady_getLength.bind steady_getExtent.times

theorem steady_getElement (tag : Nat) : Steady (getElement tag) := by
  unfold getElement
  split
  · exact steady_pure _
  · exact steady_fail _

theorem steady_getField : Steady getField :=
  steady_getText.bind fun _ => (steady_word 1).bind fun tag =>
    (steady_getElement tag).bind fun _ => steady_getLength.bind_pure _

theorem steady_getType : Steady getType := by
  refine (steady_word 1).bind fun tag => ?_
  split
  · exact steady_getLength.bind fun count => (steady_getField.times count).bind_pure _
  · exact (steady_getElement tag).bind_pure _

theorem steady_getAttr : Steady getAttr := by
  refine (steady_word 1).bind fun tag => ?_
  split
  · exact (steady_word 8).bind_pure _
  · exact (steady_word 8).bind_pure _
  · exact steady_getText.bind_pure _
  · exact steady_fail _

theorem steady_getPayload (kind : RecordKind) : Steady (getPayload kind) := by
  cases kind with
  | createGroup => exact steady_getPath.bind_pure _
  | createDataset =>
    exact steady_getPath.bind fun _ => steady_getType.bind fun type =>
      steady_getExtents.bind fun _ => (steady_word 1).bind fun _ =>
        steady_getExtent.bind fun _ => (Datum.steady_decode type).bind_pure _
  | extend => exact steady_getPath.bind fun _ => steady_getExtent.bind_pure _
  | write =>
    exact steady_getPath.bind fun _ => steady_getExtents.bind fun _ =>
      steady_getExtents.bind fun _ => steady_getLength.bind fun n => (steady_take n).bind_pure _
  | setAttribute =>
    exact steady_getPath.bind fun _ => steady_getText.bind fun _ => steady_getAttr.bind_pure _
  | markScale => exact steady_getPath.bind fun _ => steady_getText.bind_pure _
  | attachScale =>
    exact steady_getPath.bind fun _ => steady_getPath.bind fun _ =>
      steady_getText.bind fun _ => steady_getLength.bind_pure _
  | softLink => exact steady_getPath.bind fun _ => steady_getPath.bind_pure _

end Frame
end StudyArchive
