import StudyArchive.Log.Writer
import StudyArchive.Proofs.Step
/-
# What a log writer puts on the disk

A writer keeps bytes back until its buffer is full, so the disk lags.  What the disk holds followed
by what is kept back is the log (`LogWriter.log`): appending adds a frame at its end, whatever the
size of the buffer, and flushing and closing leave it as it is (`LogWriter.Extends`).
-/

namespace StudyArchive

namespace Disk

/-! ## The bytes of a file

Putting bytes at the end of a file and keeping others back leave the log what it is. -/

@[simp] theorem bytesAt_put (d : Disk) (id : FileId) (bytes : Bytes) :
    (d.put id bytes).bytesAt id = bytes := by
  simp [bytesAt, put, Table.get?_insert]

theorem bytesAt_writeAt_end {d : Disk} {id : FileId} {position : Nat}
    (atEnd : (d.bytesAt id).length = position) (bytes : Bytes) :
    (d.writeAt id position bytes).bytesAt id = d.bytesAt id ++ bytes := by
  simp [writeAt, resized, ← atEnd]

theorem bytesAt_resize {d : Disk} {id : FileId} {length : Nat}
    (within : length ≤ (d.bytesAt id).length) :
    (d.resize id length).bytesAt id = (d.bytesAt id).take length := by
  simp [resize, resized, Nat.sub_eq_zero_of_le within]

/-- Which file a name denotes depends on the folders alone. -/
theorem findFile_of_folders {d d' : Disk} (same : d'.folders = d.folders) (n : FileName) :
    d'.findFile n = d.findFile n := by
  have folders (id : FolderId) : d'.folder id = d.folder id := by rw [folder, same, folder]
  have entries (p : Spot) : d'.entry? p = d.entry? p := by
    unfold entry?
    cases p <;> simp [folders]
  have steps : d'.advance = d.advance := by
    funext p s
    simp only [advance, folderAt, entries, folders]
  simp only [findFile, find, reach, folderAt, entries, steps]

end Disk

namespace LogWriter

/-- The log: what the disk holds of it, and what is kept back. -/
def log (w : LogWriter) (d : Disk) : Bytes := d.bytesAt w.id ++ w.pending

/-- The disk goes on where the writer is. -/
def AtEnd (w : LogWriter) (d : Disk) : Prop := (d.bytesAt w.id).length = w.offset

/-- A writer and disk that go on from others: the same file under the same lock and names, and a log
with these bytes more. -/
structure Extends (w : LogWriter) (d : Disk) (w' : LogWriter) (d' : Disk) (bytes : Bytes) :
    Prop where
  id : w'.id = w.id
  file : w'.file = w.file
  folders : d'.folders = d.folders
  locks : d'.locks = d.locks
  atEnd : w'.AtEnd d'
  log : w'.log d' = w.log d ++ bytes

namespace Extends

variable {w w' w'' : LogWriter} {d d' d'' : Disk} {bytes more : Bytes}

theorem refl (h : w.AtEnd d) : Extends w d w d [] :=
  ⟨rfl, rfl, rfl, rfl, h, by simp⟩

theorem trans (h : Extends w d w' d' bytes) (h' : Extends w' d' w'' d'' more) :
    Extends w d w'' d'' (bytes ++ more) where
  id := h'.id.trans h.id
  file := h'.file.trans h.file
  folders := h'.folders.trans h.folders
  locks := h'.locks.trans h.locks
  atEnd := h'.atEnd
  log := by rw [h'.log, h.log, List.append_assoc]

end Extends

variable {w : LogWriter} {d : Disk}

theorem extends_emit (h : w.AtEnd d) (bytes : Bytes) (free : w.pending = [] ∨ bytes = []) :
    Extends w d (w.emit d bytes).1 (w.emit d bytes).2 bytes := by
  have written := Disk.bytesAt_writeAt_end h bytes
  refine ⟨rfl, rfl, rfl, rfl, ?_, ?_⟩
  · show ((d.writeAt w.id w.offset bytes).bytesAt w.id).length = w.offset + bytes.length
    rw [written, List.length_append, show (d.bytesAt w.id).length = w.offset from h]
  · show (d.writeAt w.id w.offset bytes).bytesAt w.id ++ w.pending = w.log d ++ bytes
    rw [written, log]
    rcases free with kept | none
    · simp [kept]
    · simp [none]

/-- Flushing moves what is kept back onto the disk and leaves the log as it is. -/
theorem extends_flush (h : w.AtEnd d) :
    Extends w d (w.flush d).1 (w.flush d).2 [] ∧ (w.flush d).1.pending = [] := by
  unfold flush
  split
  · next empty => exact ⟨.refl h, empty⟩
  · have written := Disk.bytesAt_writeAt_end h w.pending
    refine ⟨⟨rfl, rfl, rfl, rfl, ?_, ?_⟩, rfl⟩
    · show ((d.writeAt w.id w.offset w.pending).bytesAt w.id).length =
        w.offset + w.pending.length
      rw [written, List.length_append, show (d.bytesAt w.id).length = w.offset from h]
    · show (d.writeAt w.id w.offset w.pending).bytesAt w.id ++ [] = w.log d ++ []
      rw [written, log]

theorem extends_keep (h : w.AtEnd d) (bytes : Bytes) :
    Extends w d { w with pending := w.pending ++ bytes } d bytes :=
  ⟨rfl, rfl, rfl, rfl, h, by simp [log]⟩

/-- Bytes taken into the buffer go to the end of the log. -/
theorem extends_push (h : w.AtEnd d) (bytes : Bytes) :
    Extends w d (w.push d bytes).1 (w.push d bytes).2 bytes := by
  have flushed := extends_flush h
  by_cases full : bytes.length > w.capacity - w.pending.length
  · by_cases large : bytes.length ≥ (w.flush d).1.capacity
    · have step := flushed.1.trans (extends_emit flushed.1.atEnd bytes (.inl flushed.2))
      simpa only [push, if_pos full, if_pos large, List.nil_append] using step
    · have step := flushed.1.trans (extends_keep flushed.1.atEnd bytes)
      simpa only [push, if_pos full, if_neg large, List.nil_append] using step
  · by_cases large : bytes.length ≥ w.capacity
    · have free : w.pending = [] ∨ bytes = [] := by
        simp only [← List.length_eq_zero_iff]
        omega
      have step := extends_emit h bytes free
      simpa only [push, if_neg full, if_pos large] using step
    · have step := extends_keep h bytes
      simpa only [push, if_neg full, if_neg large] using step

theorem records_push (w : LogWriter) (d : Disk) (bytes : Bytes) :
    (w.push d bytes).1.records = w.records := by
  have flushed : (w.flush d).1.records = w.records := by
    unfold flush
    split <;> rfl
  by_cases full : bytes.length > w.capacity - w.pending.length
  · by_cases large : bytes.length ≥ (w.flush d).1.capacity
    · simp only [push, if_pos full, if_pos large, emit, flushed]
    · simp only [push, if_pos full, if_neg large, flushed]
  · by_cases large : bytes.length ≥ w.capacity
    · simp only [push, if_neg full, if_pos large, emit]
    · simp only [push, if_neg full, if_neg large]

/-- Appending a record puts its frame at the end of the log; a record without a frame is refused. -/
theorem extends_append (h : w.AtEnd d) {r : Record} {w' : LogWriter} {d' : Disk}
    (appended : w.append d r = .ok (w', d')) :
    ∃ bytes, r.encode = .ok bytes ∧ Extends w d w' d' bytes ∧ w'.records = w.records + 1 := by
  unfold append at appended
  split at appended
  · cases appended
  · next bytes encoded =>
    have pushed := extends_push h bytes
    simp only [Except.ok.injEq, Prod.mk.injEq] at appended
    obtain ⟨rfl, rfl⟩ := appended
    exact ⟨bytes, encoded, ⟨pushed.id, pushed.file, pushed.folders, pushed.locks, pushed.atEnd,
      pushed.log⟩, congrArg (· + 1) (records_push w d bytes)⟩

theorem append_eq_error {r : Record} {e : StorageError} (h : w.append d r = .error e) :
    ∃ fault, e = .io w.file (.unencodable r.path fault) := by
  unfold append at h
  split at h
  · cases h
    exact ⟨_, rfl⟩
  · cases h

/-- Closing puts the whole log on the disk and gives up one lock of the file. -/
theorem close_eq (h : w.AtEnd d) :
    (w.close d).bytesAt w.id = w.log d ∧ (w.close d).folders = d.folders ∧
      (w.close d).locks = d.locks.erase w.id := by
  obtain ⟨flushed, empty⟩ := extends_flush h
  refine ⟨?_, flushed.folders, ?_⟩
  · have whole := flushed.log
    rw [log, empty, List.append_nil, List.append_nil, flushed.id] at whole
    exact whole
  · show (w.flush d).2.locks.erase (w.flush d).1.id = _
    rw [flushed.locks, flushed.id]

/-! ## Opening a writer -/

/-- A log that is started over holds the header alone, and its file is locked for the first time. -/
theorem ends_create (file : String) (header : Header) (capacity : Nat) (d : Disk) :
    Ends (create file header capacity) d
      (fun w d' => w.file = file ∧ w.AtEnd d' ∧ w.log d' = header.encode ∧ w.records = 0 ∧
        ∃ locks, d'.locks = w.id :: locks ∧ w.id ∉ locks)
      fun _ _ => True := by
  unfold create
  simp only [ends_bind, ends_adaptExcept, ends_get, ends_set, ends_pure]
  refine ends_of_forall ?_ fun _ _ _ => trivial
  intro _ d₁ _
  refine ends_of_forall ?_ fun _ _ _ => trivial
  intro id d₂ _
  refine ends_of_forall ?_ fun _ _ _ => trivial
  intro _ d₃ locked
  unfold Disk.lock at locked
  split at locked
  · cases locked
  · next free =>
    cases locked
    generalize emptied : Disk.put _ id [] = d₄
    generalize fresh : LogWriter.mk file id capacity [] 0 0 0 = w₀
    have start : w₀.AtEnd d₄ := by simp [AtEnd, ← fresh, ← emptied]
    have pushed := extends_push start header.encode
    have counted := records_push w₀ d₄ header.encode
    have bytes := pushed.log
    have locks := pushed.locks
    have unlocked : id ∉ d₂.locks := by simpa using free
    generalize w₀.push d₄ header.encode = r at pushed counted bytes locks ⊢
    refine ⟨?_, pushed.atEnd, ?_, ?_, d₂.locks, ?_, ?_⟩
    · rw [pushed.file, ← fresh]
    · simpa [log, ← fresh, ← emptied] using bytes
    · rw [counted, ← fresh]
    · rw [locks, pushed.id, ← fresh, ← emptied]
      rfl
    · rwa [pushed.id, ← fresh]

/-- A log is gone on with after its valid end, if its name denotes a file and the file is free. -/
theorem ends_openAppend {file : String} {validEnd capacity : Nat} {d : Disk} {id : FileId}
    (found : d.findFile ⟨file⟩ = .ok id) (free : id ∉ d.locks)
    (within : validEnd ≤ (d.bytesAt id).length) :
    Ends (openAppend file validEnd capacity) d
      (fun w d' => w.file = file ∧ w.id = id ∧ w.AtEnd d' ∧ w.pending = [] ∧ w.records = 0 ∧
        w.log d' = (d.bytesAt id).take validEnd ∧ d'.folders = d.folders ∧
        d'.locks = id :: d.locks)
      fun _ _ => False := by
  have locked : Disk.lock id d = .ok () { d with locks := id :: d.locks } := by
    simp [Disk.lock, free]
  unfold openAppend
  simp only [ends_bind, ends_adaptExcept, ends_get, found, Except.mapError, ends_liftExcept_ok]
  refine ends_of_forall ?_ fun e d' eq => by rw [locked] at eq; cases eq
  intro _ d₁ eq
  rw [locked] at eq
  cases eq
  refine ends_ite.2 ⟨fun long => ?_, fun whole => ?_⟩
  · have cut := Disk.bytesAt_resize (d := { d with locks := id :: d.locks }) within
    refine ends_bind.2 (ends_modify.2 (ends_pure.2 ⟨rfl, rfl, ?_, rfl, rfl, ?_, rfl, rfl⟩))
    · show (Disk.bytesAt _ id).length = validEnd
      rw [cut, List.length_take]
      exact Nat.min_eq_left within
    · show Disk.bytesAt _ id ++ [] = _
      rw [cut, List.append_nil]
      rfl
  · have exact : (d.bytesAt id).length = validEnd := Nat.le_antisymm (Nat.le_of_not_lt whole) within
    refine ends_pure.2 ⟨rfl, rfl, exact, rfl, rfl, ?_, rfl, rfl⟩
    show d.bytesAt id ++ [] = _
    rw [List.append_nil, ← exact, List.take_length]

/-- What going on with a log asks for and does: its file is free, it is cut off if it is longer, and
locked.  Where it fails, the disk is as it was. -/
theorem ends_openAppend_only (file : String) (validEnd capacity : Nat) (d : Disk) :
    Ends (openAppend file validEnd capacity) d
      (fun w d' => ∃ id, d.findFile ⟨file⟩ = .ok id ∧ id ∉ d.locks ∧
        w = ⟨file, id, capacity, [], validEnd, validEnd, 0⟩ ∧
        d' = { (if (d.bytesAt id).length > validEnd then d.resize id validEnd else d) with
          locks := id :: d.locks })
      fun _ d' => d' = d := by
  unfold openAppend
  simp only [ends_bind, ends_adaptExcept, ends_get, ends_liftExcept]
  refine ⟨fun id found => ?_, fun _ _ => trivial⟩
  have found := eq_ok_of_mapError found
  by_cases held : d.locks.contains id
  · have refused : Disk.lock id d = .error .locked d := if_pos held
    refine ends_of_forall (fun _ _ eq => by cases refused.symm.trans eq) fun _ _ eq => ?_
    cases refused.symm.trans eq
    rfl
  · have locked : Disk.lock id d = .ok () { d with locks := id :: d.locks } := if_neg held
    refine ends_of_forall (fun _ d₁ eq => ?_) fun _ _ eq => by cases locked.symm.trans eq
    cases locked.symm.trans eq
    have free : id ∉ d.locks := by simpa using held
    refine ends_ite.2 ⟨fun long => ?_, fun whole => ?_⟩
    · refine ends_bind.2 (ends_modify.2 (ends_pure.2 ⟨id, found, free, rfl, ?_⟩))
      rw [if_pos (show (d.bytesAt id).length > validEnd from long)]
      rfl
    · refine ends_pure.2 ⟨id, found, free, rfl, ?_⟩
      rw [if_neg (show ¬(d.bytesAt id).length > validEnd from whole)]

end LogWriter
end StudyArchive
