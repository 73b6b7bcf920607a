import StudyArchive.Proofs.Archive.RowValue
import StudyArchive.Proofs.Archive.Whole
import StudyArchive.Results.Shelf
/-
# Storing whole values

A value of any kind is stored by making a dataset of its extents and writing it all, where there is
anything to write.  Either way the dataset lies at its path and holds the entries.  The entries of a
scale are read back as they were given (`ScaleData.HeldBy.readsBack`), and so is a result, by a
reader of its own rank and type and by no other one (`ResultValue.HeldBy.readFrom_iff`).
-/

namespace StudyArchive

open Archive

namespace ScaleData

/-- The type of the entries. -/
def element : ScaleData → ElementType
  | vector e _ | matrix e _ => e

/-- The extents of the dataset that holds the entries. -/
def dims : ScaleData → List Nat
  | vector _ values => [values.length]
  | matrix _ m => [m.rows, m.cols]

/-- The entries, in the order in which they are stored. -/
def cells : ScaleData → List Datum
  | vector e values => values.map e.toDatum
  | matrix e m => m.toRowMajor.map e.toDatum

/-- A dataset that holds exactly the entries. -/
def HeldBy (data : ScaleData) (d : Dataset) : Prop := d.Holds data.element data.dims data.cells

/-- The reader of vectors or matrices gets the entries from a path. -/
def ReadsBack (a : Archive) (path : Path) : ScaleData → Prop
  | vector e values => a.readVector path e = .ok values
  | matrix e m => a.readMatrix path e false = .ok m

theorem HeldBy.readsBack {a : Archive} {path : Path} {d : Dataset} {data : ScaleData}
    (held : data.HeldBy d) (coherent : a.Coherent) (found : a.tree.at? path = some d) :
    data.ReadsBack a path := by
  obtain ⟨id, node, there⟩ := Tree.at?_eq_some.1 found
  have denotes := Tree.denoted?_of_node node
  obtain rfl : a.dataset id = d := Tree.dataset_of_getElem? there
  cases data with
  | vector e values => exact readVector_eq_ok coherent denotes held
  | matrix e m => exact readMatrix_eq_ok coherent denotes held

end ScaleData

/-! ## Results

A reader of another rank or type is refused, so a result is read in one way only. -/

/-- The reader of whole datasets of the value's rank, given the flag that the value was written
with, gets it from a path; a list of matrices is no whole dataset. -/
def RowValue.ReadWhole (a : Archive) (path : Path) : RowValue → Prop
  | scalar e v => a.readScalar path e = .ok v
  | vector e values => a.readVector path e = .ok values
  | matrix e m transpose => a.readMatrix path e transpose = .ok m
  | matrices .. => False

/-- What is read is of the type of the dataset and has one axis less than a table of rows. -/
theorem RowValue.ReadWhole.found {a : Archive} {path : Path} {v : RowValue}
    (h : v.ReadWhole a path) (coherent : a.Coherent) :
    ∃ id, a.tree.denoted? path = some id ∧ (a.dataset id).type = .scalar v.type ∧
      (a.dataset id).rank + 1 = v.rank := by
  have looked {operation : String} {rank : Nat} {e : ElementType} {d : Dataset}
      (typed : a.typed path operation rank e = .ok d) :
      ∃ id, a.tree.denoted? path = some id ∧ (a.dataset id).type = .scalar e ∧
        (a.dataset id).rank + 1 = rank + 1 := by
    obtain ⟨id, found, -⟩ := exists_of_bind_eq_ok typed
    obtain ⟨denotes, type, axes⟩ := coherent.of_lookupTyped found
    exact ⟨id, denotes, type, congrArg (· + 1) axes⟩
  cases v with
  | scalar e v | vector e values | matrix e m transpose =>
    obtain ⟨d, typed, -⟩ := exists_of_bind_eq_ok h
    exact looked typed
  | matrices e ms transpose => exact h.elim

namespace ResultValue

/-- The value as one that makes up a dataset, of which it is the only row. -/
def whole (transpose : Bool) : ResultValue → RowValue
  | real v => .scalar .real v
  | int v => .scalar .int64 v
  | text v => .scalar .text v
  | reals l => .vector .real l
  | ints l => .vector .int64 l
  | texts l => .vector .text l
  | realMatrix m => .matrix .real m transpose
  | intMatrix m => .matrix .int64 m transpose
  | textMatrix m => .matrix .text m transpose

variable {a : Archive} {path : Path} {d d' : Dataset} {transpose : Bool} {v w : ResultValue}

/-- A dataset that holds exactly the value. -/
structure HeldBy (d : Dataset) (transpose : Bool) (v : ResultValue) : Prop where
  fits : (v.whole transpose).Fits d.dims
  holds : d.Holds v.element d.dims (v.whole transpose).data

/-- The typed read of a whole dataset, with a flag for matrices, gives the value. -/
def ReadFrom (a : Archive) (path : Path) (transpose : Bool) (v : ResultValue) : Prop :=
  (v.whole transpose).ReadWhole a path

theorem HeldBy.sameData (h : v.HeldBy d transpose) (same : d.SameData d') :
    v.HeldBy d' transpose := by
  obtain ⟨fits, holds⟩ := h
  rw [← same.dims] at fits holds
  exact ⟨fits, holds.sameData same⟩

theorem HeldBy.readFrom (h : v.HeldBy d transpose) (coherent : a.Coherent)
    (found : a.tree.at? path = some d) : v.ReadFrom a path transpose := by
  obtain ⟨id, node, there⟩ := Tree.at?_eq_some.1 found
  have denotes := Tree.denoted?_of_node node
  obtain rfl : a.dataset id = d := Tree.dataset_of_getElem? there
  obtain ⟨fits, holds⟩ := h
  have of_extents {dims : List Nat} (same : (a.dataset id).dims = dims) :
      (a.dataset id).Holds v.element dims (v.whole transpose).data := same ▸ holds
  cases v with
  | real v | int v | text v => exact readScalar_eq_ok coherent denotes (of_extents fits)
  | reals l | ints l | texts l => exact readVector_eq_ok coherent denotes (of_extents fits)
  | realMatrix m | intMatrix m | textMatrix m =>
    exact readMatrix_eq_ok coherent denotes (of_extents fits)

/-- There is one value that typed reads give. -/
theorem ReadFrom.unique (h : v.ReadFrom a path transpose) (h' : w.ReadFrom a path transpose)
    (coherent : a.Coherent) : v = w := by
  obtain ⟨id, denotes, type, axes⟩ := h.found coherent
  obtain ⟨id', denotes', type', axes'⟩ := h'.found coherent
  cases denotes.symm.trans denotes'
  have element : (v.whole transpose).type = (w.whole transpose).type :=
    DataType.scalar.inj (type.symm.trans type')
  have rank : (v.whole transpose).rank = (w.whole transpose).rank := axes.symm.trans axes'
  cases v <;> cases w <;> cases element <;> cases rank <;> cases h.symm.trans h' <;> rfl

/-- A dataset that holds a value gives it and no other one. -/
theorem HeldBy.readFrom_iff (h : v.HeldBy d transpose) (coherent : a.Coherent)
    (found : a.tree.at? path = some d) : w.ReadFrom a path transpose ↔ w = v := by
  have read := h.readFrom coherent found
  constructor
  · intro other
    exact other.unique read coherent
  · rintro rfl
    exact read

end ResultValue

namespace Shelf

variable {a a' : Archive} {path : Path} {e : ElementType}

theorem ends_putScalar (coherent : a.Coherent) (v : e.Value) :
    Ends (putScalar path e v) a (fun _ => Stored a path e [] [e.toDatum v]) (fun _ _ => True) := by
  refine (ends_createDataset_stored coherent).bind ?_
  rintro _ b ⟨_, stored⟩
  exact stored.ends_write (confined_writeScalar trivial) fun _ denotes =>
    ends_writeScalar_at stored.coherent denotes v

theorem ends_putVector (coherent : a.Coherent) (values : List e.Value) :
    Ends (putVector path e values) a
      (fun _ => Stored a path e [values.length] (values.map e.toDatum)) (fun _ _ => True) := by
  refine (ends_createDataset_stored coherent).bind ?_
  rintro _ b ⟨_, stored⟩
  refine ends_ite.2 ⟨fun empty => ?_, fun _ => ?_⟩
  · obtain rfl := List.isEmpty_iff.1 empty
    exact ends_pure.2 (stored.empty (Nat.zero_mul 1))
  · exact stored.ends_write (confined_writeVector trivial) fun _ denotes =>
      ends_writeVector_at stored.coherent denotes values

theorem ends_putMatrix (coherent : a.Coherent) (m : Matrix e.Value) (transpose : Bool) :
    Ends (putMatrix path e m transpose) a
      (fun _ => Stored a path e (diskShape m transpose)
        ((TypedRead.unfolded transpose m).map e.toDatum)) (fun _ _ => True) := by
  refine (ends_createDataset_stored coherent).bind ?_
  rintro _ b ⟨_, stored⟩
  refine ends_ite.2 ⟨fun empty => ?_, fun _ => ?_⟩
  · have size : m.cols * m.rows = 0 := by
      rw [← m.size_data]
      exact Array.isEmpty_iff_size_eq_zero.1 empty
    have none : (TypedRead.unfolded transpose m).length = 0 := by
      cases transpose with
      | true => exact m.length_toColumnMajor.trans size
      | false => exact m.length_toRowMajor.trans ((Nat.mul_comm ..).trans size)
    rw [List.eq_nil_of_length_eq_zero none]
    exact ends_pure.2 (stored.empty ((TypedRead.length_unfolded m transpose).symm.trans none))
  · exact stored.ends_write (confined_writeMatrix trivial) fun _ denotes =>
      ends_writeMatrix_at stored.coherent denotes m transpose

theorem ends_putValue (coherent : a.Coherent) (transpose : Bool) (value : ResultValue) :
    Ends (putValue path transpose value) a
      (fun _ a' => ∃ e dims data, Stored a path e dims data a' ∧
        ∀ d : Dataset, d.Holds e dims data → value.HeldBy d transpose)
      (fun _ _ => True) := by
  have held {d : Dataset} {dims : List Nat} (fits : (value.whole transpose).Fits dims)
      (holds : d.Holds value.element dims (value.whole transpose).data) :
      value.HeldBy d transpose := by
    rw [← holds.dims] at fits holds
    exact ⟨fits, holds⟩
  cases value with
  | real v | int v | text v =>
    exact (ends_putScalar coherent _).imp fun _ _ stored => ⟨_, _, _, stored, fun _ => held rfl⟩
  | reals l | ints l | texts l =>
    exact (ends_putVector coherent _).imp fun _ _ stored => ⟨_, _, _, stored, fun _ => held rfl⟩
  | realMatrix m | intMatrix m | textMatrix m =>
    exact (ends_putMatrix coherent _ _).imp fun _ _ stored => ⟨_, _, _, stored, fun _ => held rfl⟩

end Shelf

end StudyArchive
