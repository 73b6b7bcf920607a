import StudyArchive.Proofs.Archive.Sound
import StudyArchive.Proofs.Matrix
/-
# Appending rows and writing over them

What the appends and setters of an archive do to a table, a dataset that grows and holds elements of
one type.  Given a table of the right shape they fail only for a record without a frame, and then
the rows that were there, or the other rows, are as they were.
-/

namespace StudyArchive

/-- A dataset that grows by rows of one shape, of elements of one type. -/
structure Dataset.IsTable (d : Dataset) (e : ElementType) (tail : List Nat) : Prop where
  extensible : d.extensible = true
  type : d.type = .scalar e
  dims : d.dims = d.rows :: tail

namespace Dataset.IsTable

variable {d d' : Dataset} {e : ElementType} {tail : List Nat}

theorem rank (h : d.IsTable e tail) : d.rank = tail.length + 1 := by
  rw [Dataset.rank, h.dims, List.length_cons]

theorem tail_eq (h : d.IsTable e tail) : d.dims.tail = tail := by rw [h.dims, List.tail_cons]

theorem grows (h : d.IsTable e tail) (g : Grows d d') : d'.IsTable e tail :=
  ⟨g.alike.extensible.trans h.extensible, g.alike.type.trans h.type, g.dims_eq h.dims⟩

end Dataset.IsTable

namespace Archive

open Dataset

variable {a a' : Archive} {path : Path} {id : DatasetId} {d d' : Dataset} {e : ElementType}
  {tail : List Nat}

/-! ## Appending

A row is made and then written, which takes two records.  The table has the new row after the
first one already, at the fill. -/

/-- A dataset with one row more, which holds the fill still, or what it is for. -/
def Filling (d : Dataset) (values : List Datum) (d' : Dataset) : Prop :=
  Appended d (List.replicate (volume d.dims.tail) d.fill) d' ∨ Appended d values d'

/-- An archive in which the dataset of an identifier got a row; on the way, the row may have held
the fill. -/
structure RowAt (a : Archive) (path : Path) (id : DatasetId) (d : Dataset) (values : List Datum)
    (a' : Archive) : Prop where
  altered : ∃ d', Appended d values d' ∧ Altered a path id d' a'
  way : Passes (fun b => ∃ d', Filling d values d' ∧ Altered a path id d' b) a a'

section
variable (coherent : a.Coherent) (denotes : a.tree.denoted? path = some id)
  (here : a.tree.datasets[id]? = some d)

include coherent here

/-- Growing a table and putting a row of elements there. -/
theorem ends_grow_put (path : Path) (table : d.IsTable e tail) {operation : String}
    {s : Nat → Selection} (row : s d.rows = ⟨d.rows :: tail.map fun _ => 0, 1 :: tail⟩)
    {values : List e.Value} (length : values.length = volume tail) :
    Ends (grow path id operation >>= fun i => put id operation (s i) (values.map e.toDatum)) a
      (fun _ => RowAt a path id d (values.map e.toDatum))
      (fun err a' => err.isUnencodable ∧ ∃ d', Onward d d' ∧ Altered a path id d' a') := by
  refine ends_bind.2 ((ends_grow_altered coherent.ready here path table.extensible
    operation).mono ?_ ?_)
  · rintro _ a₁ ⟨rfl, recorded, d₁, grown, altered⟩
    have table₁ := table.grows grown.onward.toGrows
    have selection : s d.rows = d₁.rowSelection d.rows := by
      rw [row, rowSelection_eq table₁.dims]
    have more : d.rows < d₁.rows := by
      rw [grown.rows]
      exact Nat.lt_succ_self _
    have here₁ : a₁.tree.datasets[id]? = some d₁ := by
      rw [Tree.getElem?_of_lt (altered.length ▸ Tree.lt_of_getElem? here)]
      exact congrArg some altered.here
    obtain ⟨d₂, written⟩ : ∃ d₂, d₁.write operation (d₁.rowSelection d.rows)
        (values.map e.toDatum) = .ok d₂ :=
      exists_write_row table₁.dims more (by rw [List.length_map]; exact length)
    have wrote := wrote_of_write (altered.ready.sound.each here₁) table₁.dims written
    rw [← selection] at written
    refine (ends_put_altered altered.ready here₁ path table₁.type written).mono ?_ ?_
    · rintro _ a₂ ⟨recorded', altered'⟩
      have both := altered.trans altered'
      exact ⟨⟨d₂, grown.wrote wrote, both⟩, .step (.single recorded ⟨d₁, .inl grown, altered⟩)
        recorded' ⟨d₂, .inr (grown.wrote wrote), both⟩⟩
    · rintro err a₂ ⟨unencodable, altered'⟩
      exact ⟨unencodable, d₂, (grown.wrote wrote).onward, altered.trans altered'⟩
  · rintro err a' ⟨unencodable, d', grown, altered⟩
    exact ⟨unencodable, d', grown.onward, altered⟩

include denotes

/-- Finding a dataset of the rank and type that are asked for. -/
theorem find_denoted {rank : Nat} (type : d.type = .scalar e) (rank_eq : d.rank = rank)
    (operation : String) : find path operation rank e a = .ok id a := by
  obtain rfl : a.dataset id = d := Tree.dataset_of_getElem? here
  exact find_eq_ok coherent denotes rank_eq type operation

/-- Appending a value to the column that a path denotes. -/
theorem ends_appendScalar_denoted (table : d.IsTable e []) (v : e.Value) :
    Ends (appendScalar path e v) a (fun _ => RowAt a path id d [e.toDatum v])
      (fun err a' => err.isUnencodable ∧ ∃ d', Onward d d' ∧ Altered a path id d' a') := by
  have length : [v].length = volume [] := rfl
  refine ends_bind_of_ok (find_denoted coherent denotes here table.type table.rank _) ?_
  exact ends_grow_put coherent here (s := fun i => .ofCell [i]) path table rfl length

/-- Appending a row to the table that a path denotes. -/
theorem ends_appendVector_denoted {values : List e.Value} (table : d.IsTable e [values.length]) :
    Ends (appendVector path e values) a (fun _ => RowAt a path id d (values.map e.toDatum))
      (fun err a' => err.isUnencodable ∧ ∃ d', Onward d d' ∧ Altered a path id d' a') := by
  have dataset : a.dataset id = d := Tree.dataset_of_getElem? here
  have trailing : checkTrailing d "append_vector" [values.length] = .ok () := by
    simp [checkTrailing, table.tail_eq]
  refine ends_bind_of_ok (find_denoted coherent denotes here table.type table.rank _) ?_
  simp only [ends_bind, ends_get, ends_liftExcept_ok, dataset, trailing]
  exact ends_bind.1 (ends_grow_put coherent here
    (s := fun i => ⟨[i] ++ [0], [i].map (fun _ => 1) ++ [values.length]⟩) path table rfl
    (by simp [volume]))

/-- Reserving a row of the dataset that a path denotes: it holds the fill. -/
theorem ends_reserveRow_denoted (extensible : d.extensible = true) :
    Ends (reserveRow path) a
      (fun _ => RowAt a path id d (List.replicate (volume d.dims.tail) d.fill))
      (fun err a' => err.isUnencodable ∧ ∃ d', Onward d d' ∧ Altered a path id d' a') := by
  unfold reserveRow
  simp only [ends_bind, ends_get, coherent.lookup_eq_ok denotes, ends_liftExcept_ok]
  refine (ends_grow_altered coherent.ready here path extensible _).mono ?_ ?_
  · rintro _ a' ⟨-, recorded, d', grown, altered⟩
    exact ⟨⟨d', grown, altered⟩, .single recorded ⟨d', .inl grown, altered⟩⟩
  · rintro err a' ⟨unencodable, d', grown, altered⟩
    exact ⟨unencodable, d', grown.onward, altered⟩

end

/-- An archive in which the dataset at a path became a good one; after each record on the way, it
was at least in between. -/
structure TurnsInto (a : Archive) (path : Path) (mid good : Dataset → Prop) (a' : Archive) : Prop
    where
  turned : ∃ d', good d' ∧ Turned a path d' a'
  way : Passes (fun b => ∃ d', mid d' ∧ Turned a path d' b) a a'

namespace TurnsInto

variable {mid mid' good good' : Dataset → Prop}

theorem mono (h : TurnsInto a path mid good a') (imp : ∀ d', good d' → good' d') :
    TurnsInto a path mid good' a' where
  turned := by
    obtain ⟨d', there, turned⟩ := h.turned
    exact ⟨d', imp d' there, turned⟩
  way := h.way

/-- A dataset that stays as it is takes no record. -/
theorem refl (sound : a.Sound) (found : a.at? path = some d) (here : good d) :
    TurnsInto a path mid good a :=
  ⟨⟨d, here, sound.turned_self found⟩, .refl⟩

/-- One record turns the dataset into a good one. -/
theorem single (recorded : Container.Recorded a.mounted a'.mounted) (turned : Turned a path d' a')
    (there : good d') (half : mid d') : TurnsInto a path mid good a' :=
  ⟨⟨d', there, turned⟩, .single recorded ⟨d', half, turned⟩⟩

theorem after {a₁ : Archive} (h : TurnsInto a₁ path mid' good' a')
    (turned : Turned a path d' a₁) (way : Passes (fun b => ∃ d', mid d' ∧ Turned a path d' b) a a₁)
    (half : ∀ d'', mid' d'' → mid d'') (whole : ∀ d'', good' d'' → good d'') :
    TurnsInto a path mid good a' where
  turned := by
    obtain ⟨d'', there, turned'⟩ := h.turned
    exact ⟨d'', whole d'' there, turned.trans turned'⟩
  way := way.trans (h.way.mono fun b ⟨d'', there, turned'⟩ =>
    ⟨d'', half d'' there, turned.trans turned'⟩)

end TurnsInto

/-- An archive in which the dataset at a path got a row; on the way, the row may have held the
fill. -/
abbrev RowAdded (a : Archive) (path : Path) (d : Dataset) (values : List Datum) :
    Archive → Prop :=
  TurnsInto a path (Filling d values) (Appended d values)

section
variable (sound : a.Sound) (found : a.at? path = some d)

include sound

theorem Sound.rowAdded (node : a.tree.nodes.get? path = some (.dataset id)) {values : List Datum}
    (h : RowAt a path id d values a') : RowAdded a path d values a' where
  turned := by
    obtain ⟨d', appended, altered⟩ := h.altered
    exact ⟨d', appended, sound.turned_of_altered node altered⟩
  way := h.way.mono fun b ⟨d', filling, altered⟩ =>
    ⟨d', filling, sound.turned_of_altered node altered⟩

include found

/-- What is said of the dataset that a path denotes is true of the one that lies there. -/
theorem ends_of_rowAt {act : Action PUnit} {values : List Datum}
    (h : ∀ id, a.tree.denoted? path = some id → a.tree.datasets[id]? = some d →
      Ends act a (fun _ => RowAt a path id d values)
        (fun err a' => err.isUnencodable ∧ ∃ d', Onward d d' ∧ Altered a path id d' a')) :
    Ends act a (fun _ => RowAdded a path d values)
      (fun err a' => err.isUnencodable ∧ ∃ d', Onward d d' ∧ Turned a path d' a') := by
  obtain ⟨id, node, here⟩ := Tree.at?_eq_some.1 found
  refine (h id (Tree.denoted?_of_node node) here).mono ?_ ?_
  · exact fun _ a' added => sound.rowAdded node added
  · rintro err a' ⟨unencodable, d', onward, altered⟩
    exact ⟨unencodable, d', onward, sound.turned_of_altered node altered⟩

/-! ## Writing over a row

The selection of a row that is there is within the extents, so a setter can only fail for the
frame. -/

/-- Putting a row of elements in place of a row that is there. -/
theorem ends_put_row (table : d.IsTable e tail)
    (node : a.tree.nodes.get? path = some (.dataset id)) {operation : String} {s : Selection}
    {i : Nat} (low : i < d.rows) (row : s = ⟨i :: tail.map fun _ => 0, 1 :: tail⟩)
    {values : List e.Value} (length : values.length = volume tail) :
    Ends (put id operation s (values.map e.toDatum)) a
      (fun _ => TurnsInto a path (Touched d i) (Wrote d i (values.map e.toDatum)))
      (fun err a' => err.isUnencodable ∧ ∃ d', Touched d i d' ∧ Turned a path d' a') := by
  have selection : s = d.rowSelection i := by rw [row, rowSelection_eq table.dims]
  obtain ⟨d', written⟩ : ∃ d', d.write operation (d.rowSelection i) (values.map e.toDatum) =
      .ok d' := exists_write_row table.dims low (by rw [List.length_map]; exact length)
  have wrote := wrote_of_write (sound.sound_of_at? found) table.dims written
  rw [← selection] at written
  refine (ends_put sound found node table.type written).mono ?_ ?_
  · exact fun _ a' ⟨recorded, turned⟩ => .single recorded turned wrote wrote.touched
  · rintro err a' ⟨unencodable, turned⟩
    exact ⟨unencodable, d', wrote.touched, turned⟩

theorem ends_setVector {values : List e.Value} (table : d.IsTable e [values.length]) {i : Nat}
    (low : i < d.rows) :
    Ends (setVector path e values i true) a
      (fun _ => TurnsInto a path (Touched d i) (Wrote d i (values.map e.toDatum)))
      (fun err a' => err.isUnencodable ∧ ∃ d', Touched d i d' ∧ Turned a path d' a') := by
  unfold setVector
  refine ends_bind.2 (ends_find sound found table.type table.rank fun id node dataset => ?_)
  have trailing : checkTrailing d "set_vector" [values.length] = .ok () := by
    simp [checkTrailing, table.tail_eq]
  simp only [ends_bind, ends_get, dataset, trailing, ends_liftExcept_ok, if_true]
  exact ends_put_row sound found table node low rfl (by simp [volume])

/-- Setting a matrix of a list of matrices, each stored as its transpose. -/
theorem ends_setMatrix {m : Matrix e.Value} (table : d.IsTable e [m.cols, m.rows]) {i : Nat}
    (low : i < d.rows) :
    Ends (setMatrix path e m i true) a
      (fun _ => TurnsInto a path (Touched d i) (Wrote d i (m.toColumnMajor.map e.toDatum)))
      (fun err a' => err.isUnencodable ∧ ∃ d', Touched d i d' ∧ Turned a path d' a') := by
  unfold setMatrix
  refine ends_bind.2 (ends_find sound found table.type table.rank fun id node dataset => ?_)
  have room : d.dims.drop [i].length = diskShape m true := by
    rw [table.dims]
    rfl
  unfold putMatrix
  simp only [ends_bind, ends_get, dataset, room, if_true]
  refine ends_put_row sound found table node low rfl ?_
  rw [m.length_toColumnMajor]
  simp [volume]

end

end Archive
end StudyArchive
