import StudyArchive.Proofs.Dataset.Cells
/-
# Rows

The rows of a dataset are what appending and answering work on.  Growing leaves the old rows as they
are and the new one at the fill (`Dataset.appended_of_extend`); writing over one row leaves the
others as they are (`Dataset.wrote_of_write`).
-/

namespace StudyArchive

namespace Selection

/-- The indices within extents, in order. -/
def indices (dims : List Nat) : List (List Nat) := tuples (dims.map fun _ => 0) dims

theorem has_zeros {dims index : List Nat} :
    Has (dims.map fun _ => 0) dims index ↔ Inside dims index := by
  induction dims generalizing index with
  | nil => cases index <;> simp [Has]
  | cons n dims ih =>
    cases index with
    | nil => simp [Has]
    | cons i index =>
      simp only [List.map_cons, Has, ih, Nat.zero_le, Nat.zero_add, true_and, List.forall₂_cons]

theorem mem_indices {dims index : List Nat} : index ∈ indices dims ↔ Inside dims index := by
  rw [indices, mem_tuples (by simp), has_zeros]

theorem length_indices (dims : List Nat) : (indices dims).length = volume dims :=
  length_tuples _ _ (by simp)

theorem zipWith_zeros {dims index : List Nat} (inside : Inside dims index) :
    List.zipWith (· + ·) (dims.map fun _ => 0) index = index := by
  induction inside with
  | nil => rfl
  | cons low inside ih => rw [List.map_cons, List.zipWith_cons_cons, ih, Nat.zero_add]

/-- The place of an index among all of them is its place in row-major order. -/
theorem getElem?_indices {dims index : List Nat} (inside : Inside dims index) :
    (indices dims)[rowMajor dims index]? = some index := by
  rw [indices, tuples_eq_digits (by simp), List.getElem?_map,
    List.getElem?_range (rowMajor_lt inside), Option.map_some, digits_rowMajor inside,
    zipWith_zeros inside]

end Selection

namespace Dataset

variable {d d' : Dataset} {n : Nat} {tail : List Nat}

/-- The data of a row. -/
def row (d : Dataset) (i : Nat) : List Datum := (d.rowSelection i).cells.map d.cell

/-! ## The cells of a row

They are the cells whose first index is the row, so rows have no cell in common. -/

theorem rowSelection_eq (dims : d.dims = n :: tail) (i : Nat) :
    d.rowSelection i = ⟨i :: tail.map (fun _ => 0), 1 :: tail⟩ := by
  simp [rowSelection, full, dims]

theorem cells_rowSelection (dims : d.dims = n :: tail) (i : Nat) :
    (d.rowSelection i).cells = (Selection.indices tail).map (i :: ·) := by
  rw [rowSelection_eq dims, Selection.cells_eq_tuples _ (by simp)]
  simp [Selection.tuples, Selection.indices]

theorem mem_rowSelection (dims : d.dims = n :: tail) {i : Nat} {index : List Nat} :
    index ∈ (d.rowSelection i).cells ↔ ∃ rest, Inside tail rest ∧ index = i :: rest := by
  simp only [cells_rowSelection dims, List.mem_map, Selection.mem_indices, eq_comm]

theorem spans_cons (dims : d.dims = n :: tail) {i : Nat} {rest : List Nat}
    (inside : Inside tail rest) : d.Spans (i :: rest) := by
  refine ⟨?_, by simpa [dims] using inside⟩
  simp [rank, dims, inside.length_eq]

theorem getElem?_row (dims : d.dims = n :: tail) (i : Nat) {rest : List Nat}
    (inside : Inside tail rest) :
    (d.row i)[Selection.rowMajor tail rest]? = some (d.cell (i :: rest)) := by
  rw [row, List.getElem?_map, cells_rowSelection dims, List.getElem?_map,
    Selection.getElem?_indices inside]
  rfl

theorem cell_of_row (dims : d.dims = n :: tail) {i : Nat} {values : List Datum}
    (h : d.row i = values) {rest : List Nat} (inside : Inside tail rest) {v : Datum}
    (at_ : values[Selection.rowMajor tail rest]? = some v) : d.cell (i :: rest) = v := by
  have here := getElem?_row dims i inside
  rw [h, at_] at here
  exact (Option.some.inj here).symm

theorem cell_of_replicate (dims : d.dims = n :: tail) {i : Nat} {v : Datum}
    (h : d.row i = List.replicate (volume tail) v) {rest : List Nat} (inside : Inside tail rest) :
    d.cell (i :: rest) = v :=
  cell_of_row dims h inside (by rw [List.getElem?_replicate, if_pos (Selection.rowMajor_lt inside)])

theorem cell_eq_of_row {n' i : Nat} (dims : d.dims = n :: tail) (dims' : d'.dims = n' :: tail)
    (same : d'.row i = d.row i) {rest : List Nat} (inside : Inside tail rest) :
    d'.cell (i :: rest) = d.cell (i :: rest) :=
  cell_of_row dims' same inside (getElem?_row dims i inside)

theorem row_eq_of_cell {n' i : Nat} (dims : d.dims = n :: tail) (dims' : d'.dims = n' :: tail)
    (same : ∀ rest, Inside tail rest → d'.cell (i :: rest) = d.cell (i :: rest)) :
    d'.row i = d.row i := by
  rw [row, row, cells_rowSelection dims, cells_rowSelection dims', List.map_map, List.map_map]
  refine List.map_congr_left fun rest mem => ?_
  exact same rest (Selection.mem_indices.1 mem)

/-- A row beyond the last one is all fill. -/
theorem row_of_le (sound : d.Sound) (dims : d.dims = n :: tail) {i : Nat} (beyond : n ≤ i) :
    d.row i = List.replicate (volume tail) d.fill := by
  rw [row, cells_rowSelection dims, List.map_map, ← Selection.length_indices,
    List.eq_replicate_iff]
  refine ⟨by simp, fun v mem => ?_⟩
  obtain ⟨rest, inside, rfl⟩ := List.mem_map.1 mem
  refine sound.beyond _ (spans_cons dims (Selection.mem_indices.1 inside)) ?_
  simpa [rows, dims, rowOf] using beyond

/-! ## Shapes -/

/-- Two states of one dataset, which may hold different data in different numbers of rows. -/
structure Alike (d d' : Dataset) : Prop where
  path : d'.path = d.path
  type : d'.type = d.type
  extensible : d'.extensible = d.extensible
  fill : d'.fill = d.fill
  tail : d'.dims.tail = d.dims.tail

theorem Alike.refl (d : Dataset) : Alike d d := ⟨rfl, rfl, rfl, rfl, rfl⟩

theorem Alike.trans {d'' : Dataset} (h : Alike d d') (h' : Alike d' d'') : Alike d d'' :=
  ⟨h'.path.trans h.path, h'.type.trans h.type, h'.extensible.trans h.extensible,
    h'.fill.trans h.fill, h'.tail.trans h.tail⟩

/-- Two states of one dataset with the same data. -/
structure SameRows (d d' : Dataset) : Prop where
  alike : Alike d d'
  dims : d'.dims = d.dims
  rows : ∀ i, d'.row i = d.row i

theorem SameRows.refl (d : Dataset) : SameRows d d := ⟨.refl d, rfl, fun _ => rfl⟩

theorem SameRows.trans {d'' : Dataset} (h : SameRows d d') (h' : SameRows d' d'') :
    SameRows d d'' :=
  ⟨h.alike.trans h'.alike, h'.dims.trans h.dims, fun i => (h'.rows i).trans (h.rows i)⟩

theorem sameRows_markScale (d : Dataset) (name : String) : SameRows d (d.markScale name) :=
  ⟨⟨rfl, rfl, rfl, rfl, rfl⟩, rfl, fun _ => rfl⟩

theorem sameRows_of_attachScale {axis : Nat} {s : AttachedScale}
    (h : d.attachScale axis s = .ok d') : SameRows d d' := by
  obtain ⟨scales, -, rfl, -⟩ := attachScale_eq_ok h
  exact ⟨⟨rfl, rfl, rfl, rfl, rfl⟩, rfl, fun _ => rfl⟩

/-! ## Growing -/

/-- A dataset with one row more, the old ones as they were. -/
structure Appended (d : Dataset) (values : List Datum) (d' : Dataset) : Prop where
  alike : Alike d d'
  dims : d'.dims = (d.rows + 1) :: d.dims.tail
  old : ∀ i < d.rows, d'.row i = d.row i
  new : d'.row d.rows = values

theorem appended_of_extend (sound : d.Sound) (h : d.extend (d.rows + 1) = .ok d') :
    Appended d (List.replicate (volume d.dims.tail) d.fill) d' := by
  have cells := cell_of_extend h
  obtain ⟨old, tail, -, dims, -, rfl⟩ := extend_eq_ok h
  have rows : d.rows = old := by simp [Dataset.rows, dims]
  have same (i : Nat) : ({ d with dims := (d.rows + 1) :: tail } : Dataset).row i = d.row i :=
    row_eq_of_cell dims rfl fun rest _ => cells (i :: rest)
  refine ⟨⟨rfl, rfl, rfl, rfl, by simp [dims]⟩, by simp [dims], fun i _ => same i, ?_⟩
  rw [same, row_of_le sound dims (Nat.le_of_eq rows.symm), dims, List.tail_cons]

/-- A dataset that may hold other data, and more rows. -/
structure Grows (d d' : Dataset) : Prop where
  alike : Alike d d'
  axis : d.dims ≠ [] → d'.dims ≠ []
  rows : d.rows ≤ d'.rows

/-- A dataset that grows keeps its rows' shape. -/
theorem Grows.dims_eq (h : Grows d d') (dims : d.dims = n :: tail) :
    d'.dims = d'.rows :: tail := by
  have same := h.alike.tail
  obtain ⟨n', tail', dims'⟩ := List.exists_cons_of_ne_nil (h.axis (by rw [dims]; simp))
  rw [dims', dims, List.tail_cons, List.tail_cons] at same
  rw [dims', same]
  simp [Dataset.rows, dims']

theorem grows_of_dims_eq (alike : Alike d d') (dims : d'.dims = d.dims) : Grows d d' := by
  refine ⟨alike, fun axis => dims ▸ axis, ?_⟩
  rw [Dataset.rows, Dataset.rows, dims]

/-- A dataset that went on: it may have more rows, the old ones as they were. -/
structure Onward (d d' : Dataset) : Prop extends Grows d d' where
  old : ∀ i < d.rows, d'.row i = d.row i

theorem Onward.refl (d : Dataset) : Onward d d := ⟨grows_of_dims_eq (.refl d) rfl, fun _ _ => rfl⟩

theorem Appended.rows {values : List Datum} (h : Appended d values d') :
    d'.rows = d.rows + 1 := by
  simp [Dataset.rows, h.dims]

theorem Appended.onward {values : List Datum} (h : Appended d values d') : Onward d d' :=
  ⟨⟨h.alike, fun _ => by rw [h.dims]; simp, by rw [h.rows]; exact Nat.le_succ _⟩, h.old⟩

/-- A dataset that keeps one of its rows. -/
structure Keeps (d : Dataset) (i : Nat) (d' : Dataset) : Prop extends Grows d d' where
  row : d'.row i = d.row i

theorem SameRows.keeps (h : SameRows d d') (i : Nat) : Keeps d i d' :=
  ⟨grows_of_dims_eq h.alike h.dims, h.rows i⟩

theorem Onward.keeps (h : Onward d d') {i : Nat} (low : i < d.rows) : Keeps d i d' :=
  ⟨h.toGrows, h.old i low⟩

/-! ## Writing over rows

A write that stays in one row changes that row only. -/

/-- A dataset with one row written over, the others as they were. -/
structure Wrote (d : Dataset) (i : Nat) (values : List Datum) (d' : Dataset) : Prop where
  alike : Alike d d'
  dims : d'.dims = d.dims
  here : d'.row i = values
  apart : ∀ k, k ≠ i → d'.row k = d.row k

/-- A dataset that may differ in one row. -/
structure Touched (d : Dataset) (i : Nat) (d' : Dataset) : Prop where
  alike : Alike d d'
  dims : d'.dims = d.dims
  apart : ∀ k, k ≠ i → d'.row k = d.row k

theorem Touched.refl (d : Dataset) (i : Nat) : Touched d i d := ⟨.refl d, rfl, fun _ _ => rfl⟩

theorem Touched.trans {d'' : Dataset} {i : Nat} (h : Touched d i d') (h' : Touched d' i d'') :
    Touched d i d'' :=
  ⟨h.alike.trans h'.alike, h'.dims.trans h.dims,
    fun k apart => (h'.apart k apart).trans (h.apart k apart)⟩

theorem Touched.grows {i : Nat} (h : Touched d i d') : Grows d d' :=
  grows_of_dims_eq h.alike h.dims

theorem Touched.keeps {i k : Nat} (h : Touched d i d') (apart : k ≠ i) : Keeps d k d' :=
  ⟨h.grows, h.apart k apart⟩

theorem Wrote.touched {i : Nat} {values : List Datum} (h : Wrote d i values d') :
    Touched d i d' := ⟨h.alike, h.dims, h.apart⟩

theorem alike_of_write {operation : String} {s : Selection} {values : List Datum}
    (h : d.write operation s values = .ok d') : Alike d d' ∧ d'.dims = d.dims := by
  obtain ⟨chunks, eq⟩ := setCells_eq d s.cells values
  rw [(write_eq_ok h).2.2, eq]
  exact ⟨⟨rfl, rfl, rfl, rfl, rfl⟩, rfl⟩

theorem scales_of_write {operation : String} {s : Selection} {values : List Datum}
    (h : d.write operation s values = .ok d') : d'.scales = d.scales := by
  obtain ⟨-, -, rfl⟩ := write_eq_ok h
  obtain ⟨chunks, eq⟩ := setCells_eq d s.cells values
  rw [eq]

/-- A write within one row leaves the other rows as they were. -/
theorem touched_of_write (sound : d.Sound) (dims : d.dims = n :: tail) {operation : String}
    {s : Selection} {values : List Datum} {i : Nat} (only : ∀ index ∈ s.cells, rowOf index = i)
    (h : d.write operation s values = .ok d') : Touched d i d' := by
  obtain ⟨alike, dims'⟩ := alike_of_write h
  refine ⟨alike, dims', fun k apart => row_eq_of_cell dims (dims'.trans dims) fun rest inside => ?_⟩
  refine cell_of_write_of_not_mem sound.toChunked h (spans_cons dims inside) fun mem => apart ?_
  exact only _ mem

theorem wrote_of_write (sound : d.Sound) (dims : d.dims = n :: tail) {operation : String}
    {values : List Datum} {i : Nat}
    (h : d.write operation (d.rowSelection i) values = .ok d') : Wrote d i values d' := by
  obtain ⟨alike, dims'⟩ := alike_of_write h
  refine ⟨alike, dims', ?_, fun k apart => ?_⟩
  · have selection : d'.rowSelection i = d.rowSelection i := by
      rw [rowSelection_eq dims, rowSelection_eq (dims'.trans dims)]
    rw [row, selection]
    exact map_cell_of_write sound.toChunked h
  · refine (touched_of_write sound dims (fun index mem => ?_) h).apart k apart
    obtain ⟨rest, -, rfl⟩ := (mem_rowSelection dims).1 mem
    rfl

/-- Growing by a row and then writing over it appends the row. -/
theorem Appended.wrote {d'' : Dataset} {values values' : List Datum}
    (h : Appended d values d') (h' : Wrote d' d.rows values' d'') : Appended d values' d'' where
  alike := h.alike.trans h'.alike
  dims := h'.dims.trans h.dims
  old i low := (h'.apart i (Nat.ne_of_lt low)).trans (h.old i low)
  new := h'.here

/-! ## Writes that are accepted -/

theorem overrun?_of_forall₂ {axis : Nat} {start count dims : List Nat}
    (within : List.Forall₂ (fun sc d => sc.1 + sc.2 ≤ d) (start.zip count) dims) :
    overrun? axis start count dims = none := by
  induction dims generalizing axis start count with
  | nil => cases start <;> cases count <;> simp [overrun?]
  | cons n dims ih =>
    cases start with
    | nil => cases within
    | cons s start =>
      cases count with
      | nil => cases within
      | cons c count =>
        cases within with
        | cons low rest => rw [overrun?, if_pos low, ih rest]

/-- A dataset takes a selection of its rank within its extents. -/
theorem checkSelection_eq_ok_of {operation : String} {s : Selection}
    (start : s.start.length = d.rank) (count : s.count.length = d.rank)
    (within : List.Forall₂ (fun sc d => sc.1 + sc.2 ≤ d) (s.start.zip s.count) d.dims) :
    d.checkSelection operation s = .ok () := by
  unfold checkSelection
  simp [start, count, overrun?_of_forall₂ within]

/-- A write of as many values as cells, within the extents, is accepted. -/
theorem exists_write_eq_ok {operation : String} {s : Selection} {values : List Datum}
    (checked : d.checkSelection operation s = .ok ()) (count : s.cells.length = values.length) :
    ∃ d', d.write operation s values = .ok d' :=
  ⟨d.setCells s.cells values, by simp [write, checked, count, bind, Except.bind]⟩

/-- A row of values is accepted in place of a row that is there. -/
theorem exists_write_row {operation : String} {values : List Datum} {i : Nat}
    (dims : d.dims = n :: tail) (low : i < n) (length : values.length = volume tail) :
    ∃ d', d.write operation (d.rowSelection i) values = .ok d' := by
  have shape := rowSelection_eq dims i
  refine exists_write_eq_ok (checkSelection_eq_ok_of ?_ ?_ ?_) ?_
  · simp [shape, rank, dims]
  · simp [shape, rank, dims]
  · rw [shape, dims]
    refine .cons low ?_
    clear length shape dims
    induction tail with
    | nil => exact .nil
    | cons t tail ih => exact .cons (by simp) ih
  · rw [cells_rowSelection dims, List.length_map, Selection.length_indices, length]

end Dataset
end StudyArchive
