import StudyArchive.Proofs.Archive.Alike
import StudyArchive.Proofs.Archive.Footprint
import StudyArchive.Proofs.Archive.RowByRow
import StudyArchive.Proofs.Archive.Whole
/-
# Datasets that are filled part by part

A dataset gets the cells of another one part by part (`Archive.Filled`).  A part leaves the cells of
all others as they are or writes over them what they hold, so the order of the parts does not
matter, nor how often each of them comes; as soon as each cell was in some part, the dataset holds
what the other one does (`Dataset.Copies.block_eq`).  The rows of the two have the same records, so
a row that the log had room for once, it has room for again (`Archive.Filled.ends_fill`).
-/

namespace StudyArchive

open Selection

namespace Dataset

variable {d whole : Dataset} {e : ElementType} {done : List Selection} {s : Selection}

/-- What is written over cells, if it tells of each cell what it is to hold. -/
theorem cell_setCells_map (chunked : d.Chunked) {cells : List (List Nat)} {index : List Nat}
    (spans : ∀ a ∈ cells, d.Spans a) (here : d.Spans index) (f : List Nat → Datum) :
    (d.setCells cells (cells.map f)).cell index =
      if index ∈ cells then f index else d.cell index := by
  induction cells generalizing d with
  | nil => rfl
  | cons a cells ih =>
    obtain ⟨first, others⟩ := List.forall_mem_cons.1 spans
    rw [List.map_cons, setCells_cons]
    refine (ih (chunked.setCell a (f a)) others here).trans ?_
    rw [cell_setCell chunked first here]
    by_cases later : index ∈ cells
    · rw [if_pos later, if_pos (List.mem_cons_of_mem a later)]
    · rw [if_neg later]
      by_cases same : a = index
      · rw [if_pos same, if_pos (same ▸ List.mem_cons_self), same]
      · have apart : index ∉ a :: cells := fun mem =>
          (List.mem_cons.1 mem).elim (fun eq => same eq.symm) later
        rw [if_neg same, if_neg apart]

/-! ## Copies -/

/-- A dataset that is the same as another one when bare, and has its cells in some selections. -/
structure Copies (whole : Dataset) (done : List Selection) (d : Dataset) : Prop where
  bare : d.bare = whole.bare
  cells : ∀ s ∈ done, ∀ index ∈ s.cells, Inside whole.dims index →
    d.cell index = whole.cell index

namespace Copies

theorem fill (h : Copies whole done d) (chunked : d.Chunked)
    (inside : ∀ index ∈ s.cells, Inside whole.dims index) :
    Copies whole (s :: done) (d.setCells s.cells (s.cells.map whole.cell)) := by
  have dims := dims_eq_of_bare h.bare
  have spans {index : List Nat} (inside : Inside whole.dims index) : d.Spans index :=
    spans_of_inside (dims ▸ inside)
  refine ⟨?_, fun s' mem index there within => ?_⟩
  · obtain ⟨chunks, eq⟩ := setCells_eq d s.cells (s.cells.map whole.cell)
    rw [eq]
    exact h.bare
  · rw [cell_setCells_map chunked (fun a mem => spans (inside a mem)) (spans within)]
    split
    · rfl
    · next other =>
      rcases List.mem_cons.1 mem with rfl | mem
      · exact absurd there other
      · exact h.cells s' mem index there within

/-- Where the selections cover all cells, the data are the same. -/
theorem block_eq (h : Copies whole done d)
    (covers : ∀ index, Inside whole.dims index → ∃ s ∈ done, index ∈ s.cells) :
    d.block [] = whole.block [] := by
  unfold block
  rw [dims_eq_of_bare h.bare]
  refine List.map_congr_left fun index mem => ?_
  have inside : Inside whole.dims index := mem_indices.1 mem
  obtain ⟨s, mem, there⟩ := covers index inside
  exact h.cells s mem index there inside

end Copies

/-! ## Parts

A row, a column or one element: each is a selection of the whole, and its cells are the cells of
the whole at these indices. -/

/-- The cells of a row, or of a column. -/
def partSelection (d : Dataset) (row : Bool) (i : Nat) : Selection :=
  if row then d.rowSelection i else ⟨[0, i], [d.rows, 1]⟩

theorem partSelection_eq {height width : Nat} (dims : d.dims = [height, width]) (row : Bool)
    (i : Nat) :
    d.partSelection row i = if row then ⟨[i, 0], [1, width]⟩ else ⟨[0, i], [height, 1]⟩ := by
  have rows : d.rows = height := by rw [rows, dims]; rfl
  rw [partSelection, rowSelection_eq dims i, rows]
  rfl

theorem cells_across (r width : Nat) :
    (Selection.mk [r, 0] [1, width]).cells = (List.range width).map ([r, ·]) := by
  rw [cells_eq_tuples _ rfl, List.map_eq_flatMap]
  simp [tuples, List.map_flatMap]

theorem cells_down (height c : Nat) :
    (Selection.mk [0, c] [height, 1]).cells = (List.range height).map ([·, c]) := by
  rw [cells_eq_tuples _ rfl, List.map_eq_flatMap]
  simp [tuples]

theorem mem_row {n i : Nat} {tail rest : List Nat} (dims : d.dims = n :: tail)
    (inside : Inside tail rest) : i :: rest ∈ (d.partSelection true i).cells :=
  (mem_rowSelection dims).2 ⟨rest, inside, rfl⟩

theorem mem_column {r c height width : Nat} (dims : d.dims = [height, width]) (low : r < height) :
    [r, c] ∈ (d.partSelection false c).cells := by
  have selection : d.partSelection false c = ⟨[0, c], [height, 1]⟩ := partSelection_eq dims false c
  rw [selection, cells_down]
  exact List.mem_map_of_mem (List.mem_range.2 low)

theorem Holds.cell_eq {dims : List Nat} {data : List Datum} {index : List Nat} {v : Datum}
    (h : d.Holds e dims data) (inside : Inside dims index)
    (at_ : data[rowMajor dims index]? = some v) : d.cell index = v := by
  have here := getElem?_indices inside
  rw [← h.whole, block, List.getElem?_map, List.length_nil, List.drop_zero, h.dims, here] at at_
  exact Option.some.inj at_

section
variable {values : List e.Value}

theorem Holds.cells_element (h : d.Holds e [values.length] (values.map e.toDatum)) {i : Nat}
    {v : e.Value} (at_ : values[i]? = some v) :
    (d.partSelection true i).cells.map d.cell = [v].map e.toDatum ∧
      (d.partSelection true i).Fits d.dims := by
  obtain ⟨low, -⟩ := List.getElem?_eq_some_iff.1 at_
  have inside : Inside [values.length] [i] := .cons low .nil
  have place : rowMajor [values.length] [i] = i := by simp [rowMajor, volume]
  have here : d.cell [i] = e.toDatum v :=
    h.cell_eq inside (by rw [place, List.getElem?_map, at_, Option.map_some])
  have selection : d.partSelection true i = ⟨[i], [1]⟩ := rowSelection_eq h.dims i
  have cells : (Selection.mk [i] [1]).cells = [[i]] := by
    rw [cells_eq_tuples _ rfl]
    simp [tuples]
  rw [selection, cells, h.dims]
  refine ⟨congrArg (fun v => [v]) here, rfl, rfl, .cons ?_ .nil⟩
  exact low

variable {m : Matrix e.Value}

theorem Holds.cell_matrix (h : d.Holds e [m.rows, m.cols] (m.toRowMajor.map e.toDatum)) {r c : Nat}
    {v : e.Value} (at_ : m.get? r c = some v) : d.cell [r, c] = e.toDatum v := by
  obtain ⟨row, col⟩ := Matrix.lt_of_get? at_
  have inside : Inside [m.rows, m.cols] [r, c] := .cons row (.cons col .nil)
  refine h.cell_eq inside ?_
  have place : rowMajor [m.rows, m.cols] [r, c] = r * m.cols + c := by simp [rowMajor, volume]
  rw [place, List.getElem?_map, Matrix.getElem?_toRowMajor at_, Option.map_some]

theorem Holds.cells_part (h : d.Holds e [m.rows, m.cols] (m.toRowMajor.map e.toDatum)) {row : Bool}
    {i : Nat} {part : List e.Value}
    (at_ : (if row then m.rowList else m.columnList)[i]? = some part) :
    (d.partSelection row i).cells.map d.cell = part.map e.toDatum ∧
      (d.partSelection row i).Fits d.dims := by
  have entry {r c : Nat} (row : r < m.rows) (col : c < m.cols) :
      d.cell [r, c] = e.toDatum (m.cell ⟨r, row⟩ ⟨c, col⟩) := h.cell_matrix (dif_pos ⟨row, col⟩)
  obtain ⟨low, there⟩ := List.getElem?_eq_some_iff.1 at_
  cases row with
  | true =>
    have low : i < m.rows := m.length_rowList ▸ low
    have selection : d.partSelection true i = ⟨[i, 0], [1, m.cols]⟩ :=
      partSelection_eq h.dims true i
    obtain rfl : m.row ⟨i, low⟩ = part := by simpa [Matrix.rowList] using there
    rw [selection, cells_across, h.dims]
    refine ⟨List.ext_getElem (by simp [Matrix.row]) fun c inner _ => ?_, rfl, rfl, ?_⟩
    · have col : c < m.cols := by simpa using inner
      simp [Matrix.row, entry low col]
    · exact .cons low (.cons (by simp) .nil)
  | false =>
    have low : i < m.cols := by simpa [Matrix.columnList] using low
    have selection : d.partSelection false i = ⟨[0, i], [m.rows, 1]⟩ :=
      partSelection_eq h.dims false i
    obtain rfl : m.column ⟨i, low⟩ = part := by simpa [Matrix.columnList] using there
    rw [selection, cells_down, h.dims]
    refine ⟨List.ext_getElem (by simp [Matrix.column]) fun r inner _ => ?_, rfl, rfl, ?_⟩
    · have row : r < m.rows := by simpa using inner
      simp [Matrix.column, entry row low]
    · exact .cons (by simp) (.cons low .nil)

end

end Dataset

namespace Archive

open Dataset

variable {a a' : Archive} {path : Path} {id : DatasetId} {e : ElementType} {whole : Dataset}
  {done : List Selection} {s : Selection} {grows : Bool}

/-- An archive in which a dataset at a path copies some selections of another one. -/
structure Filled (path : Path) (whole : Dataset) (done : List Selection) (grows : Bool)
    (a : Archive) : Prop where
  coherent : a.Coherent
  here : ∃ id, a.tree.nodes.get? path = some (.dataset id) ∧ Copies whole done (a.dataset id) ∧
    (a.dataset id).extensible = grows

/-- What a step does that begins with finding a dataset. -/
theorem find_bind {next : DatasetId → Action Unit} (coherent : a.Coherent)
    (denotes : a.tree.denoted? path = some id) {rank : Nat} (same : (a.dataset id).rank = rank)
    (type : (a.dataset id).type = .scalar e) (operation : String) :
    (find path operation rank e >>= next) a = next id a :=
  bind_eq_of_ok (find_eq_ok coherent denotes same type operation) next

theorem ends_put_framed {operation : String} {data : List Datum} (ready : a.mounted.Ready) :
    Ends (put id operation s data) a (fun _ _ => (a.dataset id).HasFrame s data)
      (fun _ _ => True) := by
  obtain ⟨w, isOpen⟩ := ready.isOpen
  exact ends_onContainer.2 (Container.ends_write_framed isOpen)

theorem ends_put_of_framed {dims : List Nat} (h : a.Holds id e dims) (operation : String)
    {values : List e.Value} (fits : s.Fits dims) (size : s.size = values.length)
    (framed : (a.dataset id).HasFrame s (values.map e.toDatum)) :
    Ends (put id operation s (values.map e.toDatum)) a (fun _ _ => True) (fun _ _ => False) := by
  obtain ⟨w, isOpen⟩ := h.ready.isOpen
  have checked : (a.dataset id).checkSelection operation s = .ok () :=
    checkSelection_eq_ok_iff.2 (h.dims_eq ▸ fits)
  have count : s.cells.length = (values.map e.toDatum).length := by
    rw [length_cells s (fits.1.trans fits.2.1.symm), size, List.length_map]
  obtain ⟨d', written⟩ := exists_write_eq_ok checked count
  exact ends_onContainer.2 (Container.ends_write_of_framed isOpen written framed)

/-- Putting what the whole holds in a selection fails only if the record has no frame. -/
theorem ends_put_copied (h : a.Holds id e whole.dims) (copies : Copies whole done (a.dataset id))
    (operation : String) (fits : s.Fits whole.dims) {values : List e.Value}
    (same : values.map e.toDatum = s.cells.map whole.cell) :
    Ends (put id operation s (values.map e.toDatum)) a
      (fun _ a' => a'.tree.nodes = a.tree.nodes ∧ Copies whole (s :: done) (a'.dataset id) ∧
        (a'.dataset id).extensible = (a.dataset id).extensible)
      (fun err _ => err.isUnencodable ∧ ¬whole.HasFrame s (s.cells.map whole.cell)) := by
  have size : s.size = values.length := by
    rw [← length_cells s (fits.1.trans fits.2.1.symm), ← List.length_map (f := whole.cell), ← same,
      List.length_map]
  have inside : ∀ index ∈ s.cells, Inside whole.dims index := by
    have checked : whole.checkSelection "" s = .ok () := checkSelection_eq_ok_iff.2 fits
    exact (checkSelection_eq_ok checked).2.2
  have writes := ends_put_cells h operation fits size
  have known := h.known
  have puts : Ends (put id operation s (values.map e.toDatum)) a
      (fun _ => Overwrote a id s.cells (values.map e.toDatum))
      (fun err _ => err.isUnencodable ∧ ¬whole.HasFrame s (s.cells.map whole.cell)) := by
    by_cases framed : whole.HasFrame s (s.cells.map whole.cell)
    · have framed := framed.congr (path_eq_of_bare copies.bare) (type_eq_of_bare copies.bare)
      rw [← same] at framed
      exact (writes.and (ends_put_of_framed h operation fits size framed)).mono
        (fun _ _ both => both.1) fun _ _ both => both.2.elim
    · exact writes.mono (fun _ _ wrote => wrote) fun _ _ unencodable => ⟨unencodable, framed⟩
  refine puts.imp ?_
  rintro _ a' wrote
  have here := wrote.dataset_eq known
  rw [same] at here
  have chunked := (h.ready.sound.each (Tree.getElem?_of_lt known)).toChunked
  obtain ⟨chunks, eq⟩ := setCells_eq (a.dataset id) s.cells (s.cells.map whole.cell)
  refine ⟨by rw [wrote.tree]; rfl, here ▸ copies.fill chunked inside, ?_⟩
  rw [here, eq]

/-- A step that puts what the whole holds in a selection of the dataset fills it. -/
theorem Filled.ends_fill (h : Filled path whole done grows a) (type : whole.type = .scalar e)
    (fits : s.Fits whole.dims) {values : List e.Value}
    (same : values.map e.toDatum = s.cells.map whole.cell) {act : Action Unit}
    (confined : Confined (fun _ => True) act)
    (puts : ∀ id, a.tree.denoted? path = some id → a.Holds id e whole.dims →
      ∃ operation, act a = put id operation s (values.map e.toDatum) a) :
    Ends act a (fun _ => Filled path whole (s :: done) grows)
      (fun err _ => err.isUnencodable ∧ ¬whole.HasFrame s (s.cells.map whole.cell)) := by
  obtain ⟨coherent, id, node, copies, extensible⟩ := h
  have denotes := Tree.denoted?_of_node node
  have known := coherent.ready.sound.lt_of_denoted? denotes
  have holds : a.Holds id e whole.dims :=
    ⟨coherent.ready, known, (type_eq_of_bare copies.bare).trans type, dims_eq_of_bare copies.bare⟩
  obtain ⟨operation, eq⟩ := puts id denotes holds
  have writes := ends_put_copied holds copies operation fits same
  refine ends_of_forall (fun _ a' ran => ?_) fun err a' ran => ?_
  · have coherent' := ((confined a coherent).good_of_eq ran).coherent
    obtain ⟨nodes, copies', grows'⟩ := writes.good_of_eq (eq ▸ ran)
    exact ⟨coherent', id, nodes ▸ node, copies', grows'.trans extensible⟩
  · exact writes.bad_of_eq (eq ▸ ran)

/-! ## Parts of vectors and matrices -/

theorem Filled.ends_setScalar (h : Filled path whole done grows a) {values : List e.Value}
    (held : whole.Holds e [values.length] (values.map e.toDatum)) {i : Nat} {v : e.Value}
    (at_ : values[i]? = some v) :
    Ends (setScalar path e v i) a
      (fun _ => Filled path whole (whole.partSelection true i :: done) grows)
      (fun err _ => err.isUnencodable ∧ ¬whole.HasFrame (whole.partSelection true i)
        ((whole.partSelection true i).cells.map whole.cell)) := by
  obtain ⟨same, fits⟩ := held.cells_element at_
  refine h.ends_fill held.type fits same.symm (confined_setScalar trivial) ?_
  intro id denotes holds
  have rank : (a.dataset id).rank = 1 := by rw [Dataset.rank, holds.dims_eq, held.dims]; rfl
  have selection : whole.partSelection true i = .ofCell [i] := rowSelection_eq held.dims i
  refine ⟨"set_scalar", ?_⟩
  rw [selection]
  exact find_bind h.coherent denotes rank holds.type "set_scalar"

/-- A row that is as long as the rows, wherever it is to go, and a column that has its place, are
put over their cells. -/
theorem setVector_eq_put (coherent : a.Coherent) (denotes : a.tree.denoted? path = some id)
    (type : (a.dataset id).type = .scalar e) {height width : Nat}
    (dims : (a.dataset id).dims = [height, width]) {values : List e.Value} {i : Nat} {row : Bool}
    (goes : if row then values.length = width else i < width ∧ values.length = height) :
    setVector path e values i row a =
      put id "set_vector" ((a.dataset id).partSelection row i) (values.map e.toDatum) a := by
  have rank : (a.dataset id).rank = 2 := by rw [Dataset.rank, dims]; rfl
  refine (find_bind coherent denotes rank type "set_vector").trans ?_
  rw [get_bind, partSelection_eq dims]
  cases row with
  | true =>
    have length : values.length = width := goes
    have even : checkTrailing (a.dataset id) "set_vector" [values.length] = .ok () := by
      rw [checkTrailing, dims, length]
      exact if_pos rfl
    simp only [if_true, even]
    rw [← length]
    rfl
  | false =>
    obtain ⟨low, length⟩ : i < width ∧ values.length = height := goes
    simp [dims, low, length]

theorem Filled.ends_setVector (h : Filled path whole done grows a) {m : Matrix e.Value}
    (held : whole.Holds e [m.rows, m.cols] (m.toRowMajor.map e.toDatum)) {row : Bool} {i : Nat}
    {part : List e.Value} (at_ : (if row then m.rowList else m.columnList)[i]? = some part) :
    Ends (setVector path e part i row) a
      (fun _ => Filled path whole (whole.partSelection row i :: done) grows)
      (fun err _ => err.isUnencodable ∧ ¬whole.HasFrame (whole.partSelection row i)
        ((whole.partSelection row i).cells.map whole.cell)) := by
  obtain ⟨same, fits⟩ := held.cells_part at_
  refine h.ends_fill held.type fits same.symm (confined_setVector trivial) ?_
  intro id denotes holds
  have dims : (a.dataset id).dims = [m.rows, m.cols] := holds.dims_eq.trans held.dims
  have goes : if row then part.length = m.cols else i < m.cols ∧ part.length = m.rows := by
    obtain ⟨low, there⟩ := List.getElem?_eq_some_iff.1 at_
    cases row with
    | true => exact m.length_of_mem_rowList (List.mem_of_getElem? at_)
    | false =>
      obtain rfl : m.column ⟨i, by simpa [Matrix.columnList] using low⟩ = part := by
        simpa [Matrix.columnList] using there
      exact ⟨by simpa [Matrix.columnList] using low, by simp [Matrix.column]⟩
  refine ⟨"set_vector", (setVector_eq_put h.coherent denotes holds.type dims goes).trans ?_⟩
  rw [partSelection_eq dims, partSelection_eq held.dims]

/-! ## Rows that were written

Frames come in here: a row is the record of a write, so that a matrix that was written row by row
tells that each of its rows has a frame. -/

theorem ends_putRows_framed {operation : String} {width : Nat} {rows : List (List e.Value)}
    (ready : a.mounted.Ready) (known : id < a.tree.datasets.length) (first : Nat) :
    Ends (putRows id operation [] width first rows) a
      (fun _ _ => ∀ i values, rows[i]? = some values →
        (a.dataset id).HasFrame ⟨[first + i, 0], [1, width]⟩ (values.map e.toDatum))
      (fun _ _ => True) := by
  induction rows generalizing a first with
  | nil => exact ends_pure.2 fun i values there => by cases there
  | cons values rest ih =>
    refine ends_bind.2 (((ends_put_written ready known .root).and (ends_put_framed ready)).mono ?_
      fun _ _ _ => trivial)
    rintro _ b ⟨⟨d', written, altered⟩, framed⟩
    obtain ⟨alike, -⟩ := alike_of_write written
    refine (ih altered.ready (altered.there known) (first + 1)).imp fun _ _ others i v there => ?_
    cases i with
    | zero =>
      cases there
      exact framed
    | succ i =>
      have framed := others i v there
      rw [altered.here, Nat.add_right_comm] at framed
      exact framed.congr alike.path.symm alike.type.symm

theorem ends_putRows_of_framed (operation : String) {height width first : Nat}
    {rows : List (List e.Value)} (h : a.Holds id e [height, width])
    (low : first + rows.length ≤ height) (wide : ∀ values ∈ rows, values.length = width)
    (framed : ∀ i values, rows[i]? = some values →
      (a.dataset id).HasFrame ⟨[first + i, 0], [1, width]⟩ (values.map e.toDatum)) :
    Ends (putRows id operation [] width first rows) a (fun _ _ => True) (fun _ _ => False) := by
  induction rows generalizing a first with
  | nil => exact ends_pure.2 trivial
  | cons values rest ih =>
    rw [List.length_cons] at low
    have size : (Selection.mk [first, 0] [1, width]).size = values.length := by
      rw [wide values List.mem_cons_self]
      simp [Selection.size, volume]
    have fits : (Selection.mk [first, 0] [1, width]).Fits [height, width] :=
      ⟨rfl, rfl, .cons (by show first + 1 ≤ height; omega) (.cons (by simp) .nil)⟩
    have puts := (ends_put_cells h operation fits size).and
      (ends_put_of_framed h operation fits size (framed 0 values rfl))
    refine ends_bind.2 (puts.mono ?_ fun _ _ both => both.2)
    rintro _ b ⟨wrote, -⟩
    have wide' : ∀ values ∈ rest, values.length = width := fun values mem =>
      wide values (List.mem_cons_of_mem _ mem)
    refine ih (wrote.holds h) (by omega) wide' fun i v there => ?_
    obtain ⟨chunks, eq⟩ :=
      setCells_eq (a.dataset id) (Selection.mk [first, 0] [1, width]).cells (values.map e.toDatum)
    have frame : (a.dataset id).HasFrame ⟨[first + i + 1, 0], [1, width]⟩ (v.map e.toDatum) :=
      framed (i + 1) v there
    rw [Nat.add_right_comm] at frame
    rw [wrote.dataset_eq h.known, eq]
    exact frame.congr rfl rfl

theorem ends_writeVector_framed (coherent : a.Coherent) (denotes : a.tree.denoted? path = some id)
    (values : List e.Value) :
    Ends (writeVector path e values) a
      (fun _ _ => (a.dataset id).HasFrame ⟨[0], [values.length]⟩ (values.map e.toDatum))
      (fun _ _ => True) := by
  refine ends_find_denoted coherent denotes fun _ _ => ?_
  refine ends_bind.2 (ends_get.2 (ends_ite.2 ⟨fun _ => ?_, fun _ =>
    ends_bind.2 (ends_throw.2 trivial)⟩))
  exact ends_put_framed coherent.ready

/-- A column of a matrix that was set has a frame. -/
theorem ends_setColumn_framed (coherent : a.Coherent) (denotes : a.tree.denoted? path = some id)
    (values : List e.Value) (c : Nat) :
    Ends (setVector path e values c false) a
      (fun _ _ => (a.dataset id).HasFrame ⟨[0, c], [(a.dataset id).dims[0]?.getD 0, 1]⟩
        (values.map e.toDatum))
      (fun _ _ => True) := by
  refine ends_find_denoted coherent denotes fun _ _ => ends_bind.2 (ends_get.2 ?_)
  refine ends_ite.2 ⟨fun row => absurd row Bool.false_ne_true, fun _ => ?_⟩
  refine ends_ite.2 ⟨fun _ => ?_, fun _ => ends_bind.2 (ends_throw.2 trivial)⟩
  refine ends_ite.2 ⟨fun _ => ?_, fun _ => ends_bind.2 (ends_throw.2 trivial)⟩
  exact ends_put_framed coherent.ready

/-- A matrix that was written row by row has a frame for each row. -/
theorem ends_writeMatrix_framed (coherent : a.Coherent) (denotes : a.tree.denoted? path = some id)
    (m : Matrix e.Value) :
    Ends (writeMatrix path e m false) a
      (fun _ _ => ∀ i values, m.rowList[i]? = some values →
        (a.dataset id).HasFrame ⟨[i, 0], [1, m.cols]⟩ (values.map e.toDatum))
      (fun _ _ => True) := by
  have known := coherent.ready.sound.lt_of_denoted? denotes
  refine ends_find_denoted coherent denotes fun _ _ => ?_
  refine ends_bind.2 (ends_get.2 (ends_ite.2 ⟨fun _ => ?_, fun _ =>
    ends_bind.2 (ends_throw.2 trivial)⟩))
  refine (ends_putRows_framed coherent.ready known 0).imp fun _ _ framed i values there => ?_
  have frame := framed i values there
  rwa [Nat.zero_add] at frame

/-- A matrix whose rows have frames can be written row by row over a dataset of its size. -/
theorem ends_writeMatrix_of_framed (coherent : a.Coherent)
    (denotes : a.tree.denoted? path = some id) {m : Matrix e.Value}
    (h : a.Holds id e [m.rows, m.cols])
    (framed : ∀ i values, m.rowList[i]? = some values →
      (a.dataset id).HasFrame ⟨[i, 0], [1, m.cols]⟩ (values.map e.toDatum)) :
    Ends (writeMatrix path e m false) a (fun _ _ => True) (fun _ _ => False) := by
  have low : 0 + m.rowList.length ≤ m.rows := by rw [m.length_rowList, Nat.zero_add]
  have rank : (a.dataset id).rank = 2 := by rw [Dataset.rank, h.dims_eq]; rfl
  have rows := ends_putRows_of_framed "write_matrix" h low
    (fun _ => m.length_of_mem_rowList) fun i values there => by
      rw [Nat.zero_add]
      exact framed i values there
  refine ends_of_forall (fun _ _ _ => trivial) fun err b ran => ?_
  have shape : (a.dataset id).dims.drop 0 = diskShape m false := h.dims_eq
  have same : writeMatrix path e m false a = putRows id "write_matrix" [] m.cols 0 m.rowList a := by
    refine (find_bind coherent denotes rank h.type "write_matrix").trans ?_
    unfold putMatrix
    rw [get_bind]
    exact congrFun (if_pos shape) a
  exact rows.bad_of_eq (same.symm.trans ran)

end Archive
end StudyArchive
