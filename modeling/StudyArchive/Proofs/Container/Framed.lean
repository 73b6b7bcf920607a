import StudyArchive.Proofs.Container.Bare
import StudyArchive.Proofs.Log.Frames
/-
# Changes that the log has room for

A change that succeeded left a record with a frame in the log, and one that is right otherwise fails
only without a frame.  So what succeeded once tells of other changes that they succeed: a write of
part of what was written (`Dataset.HasFrame.part`), and a dataset of the same extents that is made
in another way (`Container.exists_createDataset`).
-/

namespace StudyArchive

namespace LogWriter

variable {w w' : LogWriter} {disk disk' : Disk} {r : Record}

theorem append_eq_ok (h : w.append disk r = .ok (w', disk')) : r.HasFrame ∧ w'.file = w.file := by
  unfold append at h
  split at h
  · cases h
  · next bytes encoded =>
    cases h
    exact ⟨⟨bytes, encoded⟩, w.file_push disk bytes⟩

theorem exists_append (w : LogWriter) (disk : Disk) (framed : r.HasFrame) :
    ∃ w' disk', w.append disk r = .ok (w', disk') := by
  obtain ⟨bytes, encoded⟩ := framed
  unfold append
  rw [encoded]
  exact ⟨_, _, rfl⟩

end LogWriter

/-! ## Payloads

The payload of part of the data is no longer than that of all of them. -/

namespace Container

variable {c : Container} {d : Dataset} {operation : String} {values : List Datum} {bytes : Bytes}

/-- Each of the values has bytes, and no more of them than all have. -/
theorem exists_payload_of_mem (h : c.payload d operation values = .ok bytes) {v : Datum}
    (mem : v ∈ values) :
    ∃ first, c.payload d operation [v] = .ok first ∧ first.length ≤ bytes.length := by
  induction values generalizing bytes with
  | nil => cases mem
  | cons w rest ih =>
    unfold payload at h
    split at h
    · next fits =>
      obtain ⟨first, encoded, h⟩ := exists_of_bind_eq_ok h
      obtain ⟨more, others, h⟩ := exists_of_bind_eq_ok h
      cases h
      rw [List.length_append]
      rcases List.mem_cons.1 mem with rfl | mem
      · refine ⟨first, ?_, Nat.le_add_right ..⟩
        simp only [payload, fits, if_true]
        refine (bind_of_eq_ok encoded _).trans ?_
        exact congrArg Except.ok (List.append_nil first)
      · obtain ⟨own, encoded, fewer⟩ := ih others mem
        exact ⟨own, encoded, Nat.le_add_left_of_le fewer⟩
    · cases h

/-- The bytes of values depend on nothing but the type of the dataset. -/
theorem payload_eq_ok_of (h : c.payload d operation values = .ok bytes) {d' : Dataset}
    (type : d'.type = d.type) (c' : Container) (operation' : String) :
    c'.payload d' operation' values = .ok bytes := by
  induction values generalizing bytes with
  | nil => exact h
  | cons v rest ih =>
    unfold payload at h ⊢
    rw [type]
    split at h
    · next fits =>
      rw [if_pos fits]
      obtain ⟨first, encoded, h⟩ := exists_of_bind_eq_ok h
      obtain ⟨more, others, h⟩ := exists_of_bind_eq_ok h
      have encoded := eq_ok_of_mapError encoded
      refine (bind_of_eq_ok (a := first) ?_ _).trans ((bind_of_eq_ok (ih others) _).trans h)
      rw [encoded]
      rfl
    · cases h

end Container

/-- A write of values over a selection of a dataset that has a frame. -/
def Dataset.HasFrame (d : Dataset) (s : Selection) (values : List Datum) : Prop :=
  ∃ (c : Container) (operation : String) (bytes : Bytes),
    c.payload d operation values = .ok bytes ∧
      (Record.write d.path s.start s.count bytes).HasFrame

namespace Dataset.HasFrame

variable {d d' : Dataset} {s s' : Selection} {values : List Datum}

theorem congr (h : d.HasFrame s values) (path : d'.path = d.path) (type : d'.type = d.type) :
    d'.HasFrame s values := by
  obtain ⟨c, operation, bytes, encoded, framed⟩ := h
  exact ⟨c, operation, bytes, Container.payload_eq_ok_of encoded type c operation, path ▸ framed⟩

/-- A write of one of the values, at places of the same rank. -/
theorem part (h : d.HasFrame s values) {v : Datum} (mem : v ∈ values)
    (starts : s'.start.length = s.start.length) (counts : s'.count.length = s.count.length)
    (small : ∀ n ∈ s'.start ++ s'.count, n < Bytes.span 8) : d.HasFrame s' [v] := by
  obtain ⟨c, operation, bytes, encoded, framed⟩ := h
  obtain ⟨first, alone, fewer⟩ := Container.exists_payload_of_mem encoded mem
  exact ⟨c, operation, first, alone, framed.write starts counts small fewer⟩

/-- A write of one element of a vector that was written whole. -/
theorem element (h : d.HasFrame ⟨[0], [values.length]⟩ values) {i : Nat} {v : Datum}
    (at_ : values[i]? = some v) : d.HasFrame ⟨[i], [1]⟩ [v] := by
  obtain ⟨low, -⟩ := List.getElem?_eq_some_iff.1 at_
  have room : values.length < Bytes.span 8 := by
    obtain ⟨_, _, _, -, framed⟩ := h
    obtain ⟨_, -, -, sized, -⟩ := Record.hasFrame_write_iff.1 framed
    exact sized.2 _ List.mem_cons_self
  refine h.part (List.mem_of_getElem? at_) rfl rfl fun n mem => ?_
  rcases List.mem_cons.1 mem with rfl | mem
  · exact low.trans room
  · rw [List.mem_singleton.1 mem]
    decide

end Dataset.HasFrame

/-! ## Texts -/

theorem Container.payload_texts {c : Container} {d : Dataset} {operation : String}
    (type : d.type = .scalar .text) (values : List String) :
    c.payload d operation (values.map .text) = .ok (values.flatMap Datum.encodeText) := by
  induction values with
  | nil => rfl
  | cons w rest ih =>
    have fits : (Datum.text w).conforms d.type := by rw [type]; rfl
    rw [List.map_cons, payload, if_pos fits, type]
    exact bind_of_eq_ok ih _

/-- Texts have a frame just if there is room for their bytes. -/
theorem Dataset.hasFrame_texts_iff (c : Container) {d : Dataset} (type : d.type = .scalar .text)
    {text : Bytes} (named : Frame.putPath d.path = .ok text) {s : Selection}
    (starts : Frame.Sized s.start) (counts : Frame.Sized s.count) (values : List String) :
    d.HasFrame s (values.map .text) ↔
      Frame.overhead + (text.length + (4 + 8 * s.start.length) + (4 + 8 * s.count.length) + 4 +
        (values.flatMap Datum.encodeText).length) < Bytes.span 4 := by
  constructor
  · rintro ⟨c, operation, bytes, encoded, framed⟩
    cases (Container.payload_texts type values).symm.trans encoded
    obtain ⟨text', named', -, -, short⟩ := Record.hasFrame_write_iff.1 framed
    cases named.symm.trans named'
    exact short
  · intro short
    exact ⟨c, "", _, Container.payload_texts type values,
      Record.hasFrame_write_iff.2 ⟨text, named, starts, counts, short⟩⟩

/-! ## Records -/

namespace Container

variable {m m' : Mounted} {w : LogWriter} {r : Record} {id : DatasetId} {s : Selection}
  {operation : String} {values : List Datum}

theorem ends_append_framed (isOpen : m.container.writer = some w) (r : Record) :
    Ends (append r) m (fun _ _ => r.HasFrame) (fun _ _ => ¬r.HasFrame) := by
  refine ends_of_forall (fun _ m' h => ?_) fun e m' h framed => ?_ <;>
    simp only [append, isOpen] at h
  · split at h
    · cases h
    · next appended => exact (LogWriter.append_eq_ok appended).1
  · obtain ⟨w', disk, appended⟩ := w.exists_append m.disk framed
    rw [appended] at h
    cases h

/-- A container that took a record stays open, under its names. -/
theorem Took.kept (h : Took m r m') :
    r.HasFrame ∧ m'.names = m.names ∧ ∃ w, m'.container.writer = some w := by
  obtain ⟨-, w, w', isOpen, appended, container⟩ := h
  obtain ⟨framed, file⟩ := LogWriter.append_eq_ok appended
  refine ⟨framed, ?_, w', by rw [container]⟩
  simp only [Mounted.names]
  rw [container, isOpen, Option.map_some, Option.map_some, file]

/-- A record that the tree takes, and that has a frame, is committed. -/
theorem exists_commit (isOpen : m.container.writer = some w) {t : Tree}
    (applied : m.container.tree.apply m.container.file r = .ok t) (framed : r.HasFrame) :
    ∃ m', commit r m = .ok () m' ∧ Took m r m' := by
  have closed : m.container.isClosed = false := by simp [isClosed, isOpen]
  have opened :
      ({ m with container := { m.container with tree := t } } : Mounted).container.writer =
        some w := isOpen
  have frame : Ends (commit r) m (fun _ _ => True) (fun _ _ => False) := by
    unfold commit
    simp only [ends_bind, ends_get, closed, Bool.false_eq_true, if_false, applied,
      ends_liftExcept_ok, ends_setTree]
    exact (ends_append_framed opened r).mono (fun _ _ _ => trivial) fun _ _ out => out framed
  obtain ⟨_, m', ran, -⟩ := frame.exists_ok
  exact ⟨m', ran, (ends_commit isOpen r).good_of_eq ran⟩

theorem took_of_commit (ran : commit r m = .ok () m') : Took m r m' := by
  cases isOpen : m.container.writer with
  | some w => exact (ends_commit isOpen r).good_of_eq ran
  | none =>
    have refused : Ends (commit r) m (fun _ _ => False) (fun _ _ => True) := by
      unfold commit
      simp [isClosed, isOpen]
    exact (refused.good_of_eq ran).elim

/-! ## Writes -/

theorem ends_write_framed (isOpen : m.container.writer = some w) :
    Ends (write id operation s values) m
      (fun _ _ => (m.container.dataset id).HasFrame s values) (fun _ _ => True) := by
  unfold write
  simp only [ends_bind, ends_get, ends_setTree]
  refine ends_liftExcept.2 ⟨fun _ _ => ?_, fun _ _ => trivial⟩
  refine ends_liftExcept.2 ⟨fun bytes encoded => ?_, fun _ _ => trivial⟩
  refine ends_liftExcept.2 ⟨fun written _ => ?_, fun _ _ => trivial⟩
  have opened : ({ m with container := { m.container with
    tree := m.container.tree.updateDataset id written } } : Mounted).container.writer = some w :=
    isOpen
  refine (ends_append_framed opened _).mono (fun _ _ framed => ?_) fun _ _ _ => trivial
  exact ⟨m.container, operation, bytes, encoded, framed⟩

theorem ends_write_of_framed (isOpen : m.container.writer = some w) {d' : Dataset}
    (written : (m.container.dataset id).write operation s values = .ok d')
    (framed : (m.container.dataset id).HasFrame s values) :
    Ends (write id operation s values) m (fun _ _ => True) (fun _ _ => False) := by
  obtain ⟨c, operation', bytes, encoded, framed⟩ := framed
  have encoded := payload_eq_ok_of encoded rfl m.container operation
  have checked := (Dataset.write_eq_ok written).1
  have opened : ({ m with container := { m.container with
    tree := m.container.tree.updateDataset id d' } } : Mounted).container.writer = some w := isOpen
  unfold write
  simp only [ends_bind, ends_get, checked, encoded, written, ends_liftExcept_ok, ends_setTree]
  exact (ends_append_framed opened _).mono (fun _ _ _ => trivial) fun _ _ out => out framed

end Container

theorem Tree.updateDataset_dataset (t : Tree) (id : DatasetId) :
    t.updateDataset id (t.dataset id) = t := by
  refine congrArg (Tree.mk t.nodes) (List.ext_getElem? fun k => ?_)
  rw [List.getElem?_set]
  split
  · next same =>
    subst same
    split
    · next known => rw [getElem?_of_lt known]
    · next beyond => rw [List.getElem?_eq_none (Nat.le_of_not_lt beyond)]
  · rfl

/-- Whatever comes of a write to one of two containers whose trees are the same when bare, they are
the same still. -/
theorem Mounted.Alike.written {m n : Mounted} (h : Mounted.Alike m n) (id : DatasetId)
    (operation : String) (s : Selection) (values : List Datum) :
    Ends (Container.write id operation s values) m (fun _ m' => Mounted.Alike m' n)
      (fun _ m' => Mounted.Alike m' n) := by
  refine Container.ends_write_of (fun _ _ => h) fun bytes d' _ _ written => ?_
  obtain ⟨w, isOpen⟩ := h.isOpen
  have bare : (m.container.tree.updateDataset id d').bare = m.container.tree.bare := by
    obtain ⟨-, -, rfl⟩ := Dataset.write_eq_ok written
    obtain ⟨chunks, eq⟩ := Dataset.setCells_eq (m.container.dataset id) s.cells values
    rw [Tree.bare_updateDataset, eq]
    exact (congrArg _ (Tree.dataset_bare ..).symm).trans (Tree.updateDataset_dataset _ id)
  refine (Container.ends_append (by exact isOpen) _).mono ?_ ?_
  · rintro _ m' ⟨w', appended, container⟩
    refine ⟨?_, ⟨w', by rw [container]⟩, ?_⟩
    · rw [container, bare, h.bare]
    · rw [h.names, Mounted.names, Mounted.names, container, isOpen, Option.map_some,
        Option.map_some, (LogWriter.append_eq_ok appended).2]
  · rintro e m' ⟨rfl, -⟩
    exact ⟨h.bare.trans bare.symm, ⟨w, isOpen⟩, h.names⟩

/-! ## Datasets in another way

The frame of a record that makes a dataset does not get longer with other chunks, or if the
dataset grows. -/

namespace Tree

variable {t t₁ : Tree} {d d' : Dataset}

theorem exists_createDataset (made : t.createDataset d = .ok t₁) (same : d'.bare = d.bare)
    (axis : ¬(d'.extensible = true ∧ d'.dims = [])) :
    ∃ t₂, t.createDataset d' = .ok t₂ ∧ t₂.bare = t₁.bare := by
  obtain ⟨absent, -, grown, above, groups, rfl⟩ := createDataset_eq_ok made
  have path := Dataset.path_eq_of_bare same
  have free : t.nodes.contains d'.path = false := by simp [SortedMap.contains, path, absent]
  unfold createDataset
  rw [free, path, above]
  simp only [Bool.false_eq_true, if_false, axis]
  refine ⟨_, rfl, ?_⟩
  simp [bare, putNode, groups.datasets, same]

end Tree

namespace Container

variable {m m₁ : Mounted} {id : DatasetId} {path : Path} {type : DataType} {dims : List Nat}
  {extensible : Bool} {chunkRows chunkRows' : Nat} {fill fill' : Datum}

/-- Where a dataset was made, it could have been made to grow, with other chunks and another fill of
the same size, and the container would be the same when bare. -/
theorem exists_createDataset
    (made : createDataset path type dims false chunkRows fill m = .ok id m₁)
    (axis : ¬(extensible = true ∧ dims = [])) (fits : fill'.conforms type)
    (rows : (∀ n ∈ dims, n < Bytes.span 8) → chunkRows' < Bytes.span 8) {filled : Bytes}
    (encoded : fill'.encode type = .ok filled)
    (size : ∀ bytes, fill.encode type = .ok bytes → filled.length = bytes.length) :
    ∃ m₂, createDataset path type dims extensible chunkRows' fill' m = .ok id m₂ ∧
      Mounted.Alike m₁ m₂ := by
  unfold createDataset at made ⊢
  split at made
  · obtain ⟨_, m', ran, told⟩ := exists_of_step_eq_ok made
    cases told
    have took := took_of_commit ran
    obtain ⟨framed, names, w₁, isOpen₁⟩ := took.kept
    obtain ⟨w, -, isOpen, -⟩ := took.appended
    have same : (Dataset.new path type dims extensible chunkRows' fill').bare =
      (Dataset.new path type dims false chunkRows fill).bare := rfl
    obtain ⟨t, applied, bare⟩ := Tree.exists_createDataset took.applied same axis
    obtain ⟨m₂, ran', took'⟩ := exists_commit isOpen
      (r := .createDataset path type dims extensible chunkRows' fill') applied
      (framed.createDataset (rows framed.small) encoded size)
    obtain ⟨-, names', -⟩ := took'.kept
    obtain rfl := Except.ok.inj (applied.symm.trans took'.applied)
    have alike : Mounted.Alike m₁ m₂ := ⟨bare, ⟨w₁, isOpen₁⟩, names'.trans names.symm⟩
    refine ⟨m₂, ?_, alike⟩
    rw [if_pos fits]
    refine (bind_eq_of_ok ran' _).trans ?_
    rw [get_bind, alike.length]
    rfl
  · cases made

end Container
end StudyArchive
