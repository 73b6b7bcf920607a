import StudyArchive.Container.Basic
import StudyArchive.Proofs.Container.Sound
import StudyArchive.Proofs.Log.Writing
import StudyArchive.Proofs.Log.ReadBack
/-
# Records taken by tree and log

A change of an open container is one record: the tree takes it and the log takes it (`Took`).  For
all changes but one this is how `Container.commit` works; `Container.write` puts the values into the
tree itself and logs their bytes, and that applying the logged record would have led to the same
tree is what `Tree.Sound.apply_write` shows.
-/

namespace StudyArchive

/-- The refusal of a record that has no frame: one of its lengths, or its own, is beyond what the
frame has room for. -/
def StorageError.isUnencodable : StorageError → Bool
  | .io _ (.unencodable ..) => true
  | _ => false

/-! ## Applying a record

What a record asks for is checked as the live change was checked, so that if the one passes, the
other does. -/

namespace Tree

variable {t t' : Tree} {file : String}

theorem payloadValues_eq_ok {type : DataType} {s : Selection} {payload : Bytes}
    {values : List Datum} (h : payloadValues file type s payload = .ok values) (other : String) :
    payloadValues other type s payload = .ok values := by
  unfold payloadValues at h ⊢
  split at h
  · cases h
    rfl
  · cases h

/-- The file of a log matters to the wording of refusals only. -/
theorem apply_of_eq_ok {r : Record} (h : t.apply file r = .ok t') (other : String) :
    t.apply other r = .ok t' := by
  cases r with
  | write path start count payload =>
    obtain ⟨id, opened, h⟩ := exists_of_bind_eq_ok h
    obtain ⟨values, decoded, h⟩ := exists_of_bind_eq_ok h
    obtain ⟨d, written, h⟩ := exists_of_bind_eq_ok h
    cases h
    simp only [apply, opened, payloadValues_eq_ok decoded other, written, bind, Except.bind, pure,
      Except.pure]
  | _ => exact h

end Tree

theorem Dataset.checkSelection_of_eq_ok {d : Dataset} {operation : String} {s : Selection}
    (h : d.checkSelection operation s = .ok ()) (other : String) :
    d.checkSelection other s = .ok () := by
  unfold checkSelection at h ⊢
  simp only at h ⊢
  split at h
  · cases h
  · next ranks =>
    rw [if_neg ranks]
    split at h
    · rfl
    all_goals cases h

theorem Dataset.write_of_eq_ok {d d' : Dataset} {operation : String} {s : Selection}
    {values : List Datum} (h : d.write operation s values = .ok d') (other : String) :
    d.write other s values = .ok d' := by
  obtain ⟨checked, count, rfl⟩ := write_eq_ok h
  simp [Dataset.write, checkSelection_of_eq_ok checked other, count, bind, Except.bind]

/-- The record of a write leads where the write led. -/
theorem Tree.Sound.apply_write {t : Tree} (sound : t.Sound) {id : DatasetId}
    (known : id < t.datasets.length) {operation : String} {s : Selection} {values : List Datum}
    {payload : Bytes} {written : Dataset}
    (reads : Reader.Reads ((Datum.decode (t.dataset id).type).times values.length) payload values)
    (h : (t.dataset id).write operation s values = .ok written) (file : String) :
    t.apply file (.write (t.dataset id).path s.start s.count payload) =
      .ok (t.updateDataset id written) := by
  obtain ⟨checked, count, -⟩ := Dataset.write_eq_ok h
  obtain ⟨rank, rank', -⟩ := Dataset.checkSelection_eq_ok checked
  have size : s.size = values.length :=
    (Selection.length_cells s (rank.trans rank'.symm)).symm.trans count
  have decoded : Tree.payloadValues file (t.dataset id).type s payload = .ok values := by
    unfold Tree.payloadValues
    rw [size, reads.all]
  have again := Dataset.write_of_eq_ok h "write"
  simp only [Tree.apply, sound.openDataset known, decoded, again, bind, Except.bind, pure,
    Except.pure]

namespace Container

variable {m : Mounted} {w : LogWriter}

/-- A container whose tree and log took a record. -/
structure Took (m : Mounted) (r : Record) (m' : Mounted) : Prop where
  applied : m.container.tree.apply m.container.file r = .ok m'.container.tree
  appended : ∃ w w', m.container.writer = some w ∧ w.append m.disk r = .ok (w', m'.disk) ∧
    m'.container = { m.container with tree := m'.container.tree, writer := some w' }

/-! ## Appending and committing -/

@[simp] theorem ends_setTree {t : Tree} {good : Unit → Mounted → Prop}
    {bad : StorageError → Mounted → Prop} :
    Ends (setTree t) m good bad ↔
      good () { m with container := { m.container with tree := t } } := ends_modify

/-- Appending to the log of an open container leaves the tree alone. -/
theorem ends_append (isOpen : m.container.writer = some w) (r : Record) :
    Ends (append r) m
      (fun _ m' => ∃ w', w.append m.disk r = .ok (w', m'.disk) ∧
        m'.container = { m.container with writer := some w' })
      (fun e m' => m' = m ∧ e.isUnencodable) := by
  refine ends_of_forall (fun _ m' h => ?_) (fun e m' h => ?_) <;> unfold append at h <;>
    rw [isOpen] at h <;> simp only at h <;> split at h <;> cases h
  · next w' disk appended => exact ⟨w', appended, rfl⟩
  · next refused =>
    obtain ⟨fault, rfl⟩ := LogWriter.append_eq_error refused
    exact ⟨rfl, rfl⟩

/-- Where committing a record leads.  Only a record without a frame leaves a trace when it fails:
the tree took it before the log refused. -/
theorem ends_commit (isOpen : m.container.writer = some w) (r : Record) :
    Ends (commit r) m (fun _ m' => Took m r m')
      (fun e m' => (m' = m ∧ m.container.tree.apply m.container.file r = .error e) ∨
        e.isUnencodable ∧ ∃ tree, m.container.tree.apply m.container.file r = .ok tree ∧
          m' = { m with container := { m.container with tree } }) := by
  have closed : m.container.isClosed = false := by simp [isClosed, isOpen]
  unfold commit
  simp only [ends_bind, ends_get, closed, Bool.false_eq_true, if_false, ends_setTree]
  refine ends_liftExcept.2 ⟨fun tree applied => ?_, fun e refused => .inl ⟨rfl, refused⟩⟩
  have opened : ({ m with container := { m.container with tree } } : Mounted).container.writer =
    some w := isOpen
  refine (ends_append opened r).mono ?_ ?_
  · rintro _ m' ⟨w', appended, container⟩
    have same : m'.container.tree = tree := by rw [container]
    refine ⟨by rw [same]; exact applied, w, w', isOpen, appended, ?_⟩
    rw [same, container]
  · rintro e m' ⟨rfl, unencodable⟩
    exact .inr ⟨unencodable, tree, applied, rfl⟩

/-! ## Writes

The bytes in the record of a write are read back as the values that were put into the tree. -/

/-- The bytes of values that are elements of the dataset's type are read back as these values. -/
theorem reads_payload {c : Container} {d : Dataset} {operation : String} {values : List Datum}
    {bytes : Bytes} (h : c.payload d operation values = .ok bytes)
    (short : bytes.length < Bytes.span 4) :
    Reader.Reads ((Datum.decode d.type).times values.length) bytes values := by
  induction values generalizing bytes with
  | nil =>
    cases h
    exact Reader.reads_pure []
  | cons v rest ih =>
    simp only [payload] at h
    split at h
    · next fits =>
      obtain ⟨front, encoded, h⟩ := exists_of_bind_eq_ok h
      obtain ⟨back, more, h⟩ := exists_of_bind_eq_ok h
      cases h
      rw [List.length_append] at short
      have first : v.encode d.type = .ok front := by
        cases eq : v.encode d.type with
        | error fault => rw [eq] at encoded; cases encoded
        | ok bytes => rw [eq] at encoded; cases encoded; rfl
      exact (Datum.reads_of_conforms fits first (by omega)).bind
        ((ih more (by omega)).bind_pure _)
    · cases h

/-- A write that has a frame has a payload within 32 bits. -/
theorem payload_lt_of_encode {path : Path} {start count : List Nat} {payload bytes : Bytes}
    (h : (Record.write path start count payload).encode = .ok bytes) :
    payload.length < Bytes.span 4 := by
  obtain ⟨_, written, -⟩ := Record.encode_eq_ok h
  obtain ⟨_, -, written⟩ := exists_of_bind_eq_ok written
  obtain ⟨_, -, written⟩ := exists_of_bind_eq_ok written
  obtain ⟨_, -, written⟩ := exists_of_bind_eq_ok written
  obtain ⟨_, length, -⟩ := exists_of_bind_eq_ok written
  exact (Frame.putLength_eq_ok length).1

/-- A write is refused by one of its checks, and nothing has happened; or its values are in the tree
when the log is asked to take them, and it ends as the log does. -/
theorem ends_write_of {id : DatasetId} {operation : String} {s : Selection} {values : List Datum}
    {good : Unit → Mounted → Prop} {bad : StorageError → Mounted → Prop}
    (refused : ∀ e, (m.container.dataset id).checkSelection operation s = .error e ∨
      m.container.payload (m.container.dataset id) operation values = .error e ∨
      (m.container.dataset id).write operation s values = .error e → bad e m)
    (logged : ∀ payload written,
      (m.container.dataset id).checkSelection operation s = .ok () →
      m.container.payload (m.container.dataset id) operation values = .ok payload →
      (m.container.dataset id).write operation s values = .ok written →
      Ends (append (.write (m.container.dataset id).path s.start s.count payload))
        { m with container :=
          { m.container with tree := m.container.tree.updateDataset id written } } good bad) :
    Ends (write id operation s values) m good bad := by
  unfold write
  simp only [ends_bind, ends_get, ends_setTree]
  refine ends_liftExcept.2 ⟨fun _ checked => ?_, fun e h => refused e (.inl h)⟩
  refine ends_liftExcept.2 ⟨fun payload encoded => ?_, fun e h => refused e (.inr (.inl h))⟩
  refine ends_liftExcept.2 ⟨fun written filed => ?_, fun e h => refused e (.inr (.inr h))⟩
  exact logged payload written checked encoded filed

/-- Where a write leads: tree and log take it as one record, or nothing happens, or the record has
no frame and the tree alone took it. -/
theorem ends_write (sound : m.container.tree.Sound) (isOpen : m.container.writer = some w)
    {id : DatasetId} (known : id < m.container.tree.datasets.length) (operation : String)
    (s : Selection) (values : List Datum) :
    Ends (write id operation s values) m
      (fun _ m' => ∃ written r, (m.container.dataset id).write operation s values = .ok written ∧
        m'.container.tree = m.container.tree.updateDataset id written ∧ r.isPlain ∧ Took m r m')
      (fun e m' => m' = m ∨ e.isUnencodable ∧ ∃ written,
        (m.container.dataset id).write operation s values = .ok written ∧
        m' = { m with container :=
          { m.container with tree := m.container.tree.updateDataset id written } }) := by
  refine ends_write_of (fun _ _ => .inl rfl) fun payload written _ encoded written_eq => ?_
  refine (ends_append (by exact isOpen) _).mono ?_ ?_
  · rintro _ m' ⟨w', appended, container⟩
    have tree : m'.container.tree = m.container.tree.updateDataset id written := by
      rw [container]
    have encodes : ∃ bytes, (Record.write (m.container.dataset id).path s.start s.count
        payload).encode = .ok bytes := by
      unfold LogWriter.append at appended
      split at appended
      · cases appended
      · next bytes eq => exact ⟨bytes, eq⟩
    obtain ⟨bytes, frame⟩ := encodes
    have reads := reads_payload encoded (payload_lt_of_encode frame)
    refine ⟨written, .write (m.container.dataset id).path s.start s.count payload, written_eq,
      tree, rfl, ?_, w, w', isOpen, appended, ?_⟩
    · rw [tree]
      exact sound.apply_write known reads written_eq _
    · rw [container]
  · rintro e m' ⟨rfl, unencodable⟩
    exact .inr ⟨unencodable, written, written_eq, rfl⟩

end Container
end StudyArchive
