import StudyArchive.Proofs.Archive.Filling
import StudyArchive.Proofs.Results.Adding
/-
# Results in parts

A vector consists of its elements, and a matrix of its rows or of its columns.  Room for a value is
made as the value itself is stored, but for the data, and each of its parts then has a place in it.
-/

namespace StudyArchive

open Archive Dataset

/-- The parts of a value: the elements of a vector, and the rows or the columns of a matrix. -/
def ResultValue.pieces (row : Bool) : ResultValue → List ResultValue
  | reals l => l.map real
  | ints l => l.map int
  | texts l => l.map text
  | realMatrix m => (if row then m.rowList else m.columnList).map reals
  | intMatrix m => (if row then m.rowList else m.columnList).map ints
  | textMatrix m => (if row then m.rowList else m.columnList).map texts
  | real _ | int _ | text _ => []

/-- Whether the parts of a value are rows of its dataset. -/
def ResultValue.byRows (row : Bool) (v : ResultValue) : Bool := row || v.rank = 1

theorem ResultValue.byRows_of_vector {v : ResultValue} (rank : v.rank = 1) {row : Bool} :
    v.byRows row = true := by
  simp [byRows, rank]

theorem ResultValue.byRows_of_matrix {v : ResultValue} (rank : v.rank = 2) {row : Bool} :
    v.byRows row = row := by
  simp [byRows, rank]

/-- A dataset each row of which makes a record with a frame. -/
def Dataset.RowsHaveFrames (d : Dataset) : Prop :=
  ∀ i < d.rows, d.HasFrame (d.partSelection true i) ((d.partSelection true i).cells.map d.cell)

section
variable {v : ResultValue} {data : ScaleData} {d : Dataset} {row : Bool} {path : Path}

theorem ResultValue.heldBy_iff (is : ScaleData.ofValue? v = some data) :
    v.HeldBy d false ↔ data.HeldBy d := by
  have whole {e : ElementType} {dims : List Nat} {data : List Datum} (same : e = v.element)
      (cells : (v.whole false).data = data)
      (fits : ∀ dims', (v.whole false).Fits dims' ↔ dims' = dims) :
      v.HeldBy d false ↔ d.Holds e dims data := by
    subst same cells
    constructor
    · rintro ⟨extents, holds⟩
      rwa [(fits d.dims).1 extents] at holds
    · intro holds
      refine ⟨(fits d.dims).2 holds.dims, ?_⟩
      rwa [← holds.dims] at holds
  cases v with
  | real v | int v | text v => cases is
  | reals l | ints l | texts l =>
    cases is
    exact whole rfl rfl fun _ => Iff.rfl
  | realMatrix m | intMatrix m | textMatrix m =>
    cases is
    exact whole rfl rfl fun _ => Iff.rfl

/-- What does not come by rows comes by columns, and is a matrix. -/
theorem ResultValue.of_byRows_eq_false (is : ScaleData.ofValue? v = some data)
    (across : v.byRows row = false) : row = false ∧ v.rank = 2 := by
  cases v with
  | real v | int v | text v => cases is
  | reals l | ints l | texts l => exact absurd ((byRows_of_vector rfl).symm.trans across) nofun
  | realMatrix m | intMatrix m | textMatrix m =>
    exact ⟨(byRows_of_matrix rfl).symm.trans across, rfl⟩

/-- Filling a part of a dataset that copies one that holds the value. -/
theorem Shelf.ends_fillPart {a : Archive} {whole : Dataset} {done : List Selection} {grows : Bool}
    (is : ScaleData.ofValue? v = some data) (held : data.HeldBy whole)
    (filled : Filled path whole done grows a) {i : Nat} {part : ResultValue}
    (at_ : (v.pieces row)[i]? = some part) :
    Ends (fillPart path i row part) a
      (fun _ => Filled path whole (whole.partSelection (v.byRows row) i :: done) grows)
      (fun err _ => err.isUnencodable ∧ ¬whole.HasFrame (whole.partSelection (v.byRows row) i)
        ((whole.partSelection (v.byRows row) i).cells.map whole.cell)) := by
  cases v with
  | real v | int v | text v => cases is
  | reals l | ints l | texts l =>
    cases is
    rw [ResultValue.byRows_of_vector rfl]
    simp only [ResultValue.pieces, List.getElem?_map] at at_
    obtain ⟨x, there, rfl⟩ := Option.map_eq_some_iff.1 at_
    exact filled.ends_setScalar held there
  | realMatrix m | intMatrix m | textMatrix m =>
    cases is
    rw [ResultValue.byRows_of_matrix rfl]
    simp only [ResultValue.pieces, List.getElem?_map] at at_
    obtain ⟨values, there, rfl⟩ := Option.map_eq_some_iff.1 at_
    exact filled.ends_setVector held there

/-- Each cell is in one of the parts. -/
theorem ResultValue.exists_piece {whole : Dataset} (is : ScaleData.ofValue? v = some data)
    (held : data.HeldBy whole) {index : List Nat} (inside : Inside whole.dims index) :
    ∃ i < (v.pieces row).length, index ∈ (whole.partSelection (v.byRows row) i).cells := by
  have dims := held.dims
  rw [dims] at inside
  cases v with
  | real v | int v | text v => cases is
  | reals l | ints l | texts l =>
    cases is
    rw [byRows_of_vector rfl]
    obtain _ | ⟨low, within⟩ := inside
    refine ⟨_, ?_, mem_row dims within⟩
    rw [pieces, List.length_map]
    exact low
  | realMatrix m | intMatrix m | textMatrix m =>
    cases is
    rw [byRows_of_matrix rfl]
    obtain _ | ⟨low, within⟩ := inside
    obtain _ | ⟨low', none⟩ := within
    cases none
    cases row with
    | true =>
      refine ⟨_, ?_, mem_row dims (.cons low' .nil)⟩
      rw [pieces, List.length_map, if_pos rfl, m.length_rowList]
      exact low
    | false =>
      refine ⟨_, ?_, mem_column dims low⟩
      rw [pieces, List.length_map, if_neg Bool.false_ne_true, m.length_columnList]
      exact low'

/-- Where the parts are rows, there are as many as the dataset has. -/
theorem ResultValue.length_pieces {whole : Dataset} (is : ScaleData.ofValue? v = some data)
    (held : data.HeldBy whole) (rows : v.byRows row = true) :
    (v.pieces row).length = whole.rows := by
  rw [Dataset.rows, held.dims]
  cases v with
  | real v | int v | text v => cases is
  | reals l | ints l | texts l =>
    cases is
    exact List.length_map ..
  | realMatrix m | intMatrix m | textMatrix m =>
    cases is
    rw [byRows_of_matrix rfl] at rows
    rw [pieces, List.length_map, if_pos rows, m.length_rowList]
    rfl

/-- Where every part was filled, the value is held. -/
theorem Archive.Filled.exists_held {a : Archive} {whole : Dataset} {done : List Selection}
    {grows : Bool} (filled : Filled path whole done grows a)
    (is : ScaleData.ofValue? v = some data) (held : v.HeldBy whole false)
    (covers : ∀ i < (v.pieces row).length, whole.partSelection (v.byRows row) i ∈ done) :
    ∃ d, a.tree.at? path = some d ∧ v.HeldBy d false ∧ d.bare = whole.bare ∧
      d.extensible = grows := by
  obtain ⟨coherent, id, node, copies, extensible⟩ := filled
  have known := coherent.ready.sound.lt_of_denoted? (Tree.denoted?_of_node node)
  have holds := (ResultValue.heldBy_iff is).1 held
  have block := copies.block_eq fun index inside => by
    obtain ⟨i, low, mem⟩ := ResultValue.exists_piece is holds inside
    exact ⟨_, covers i low, mem⟩
  have here : data.HeldBy (a.dataset id) :=
    ⟨(type_eq_of_bare copies.bare).trans holds.type, (dims_eq_of_bare copies.bare).trans holds.dims,
      block.trans holds.whole⟩
  exact ⟨a.dataset id, (Tree.at?_of_node node).trans (Tree.getElem?_of_lt known),
    (ResultValue.heldBy_iff is).2 here, copies.bare, extensible⟩

end

end StudyArchive
