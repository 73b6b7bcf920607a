import StudyArchive.Attribute
import StudyArchive.Dataset.Selection
import StudyArchive.Datum.Basic
import StudyArchive.SortedMap
import StudyArchive.StorageError
import StudyArchive.Word
/-
# Datasets

A dataset is a box of cells of one type.  Its rows, the indices of the first axis, lie in chunks of
equally many rows; a chunk comes into being, filled, when a cell of it is first written, and a cell
of an absent chunk reads as the fill.  An extensible dataset can grow along its first axis.
-/

namespace StudyArchive

/-- A scale attached to an axis. -/
structure AttachedScale where
  /-- The dataset that holds the scale. -/
  scale : Path
  /-- What the scale is called on this axis. -/
  label : String
  deriving DecidableEq

/-- A box of cells of one type. -/
structure Dataset where
  path : Path
  type : DataType
  /-- The extent of each axis. -/
  dims : List Nat
  /-- Whether the first axis can grow. -/
  extensible : Bool
  /-- The number of rows of a chunk. -/
  chunkRows : Nat
  /-- What a cell holds before it is written. -/
  fill : Datum
  /-- The cells of each chunk that was written to, row after row. -/
  chunks : SortedMap Nat (Array Datum)
  attributes : SortedMap String AttrValue
  /-- The name of the dataset as a scale. -/
  scaleName : Option String
  /-- The scales attached to each axis. -/
  scales : List (List AttachedScale)
  deriving DecidableEq

namespace Dataset

/-- A new dataset: no cell written, no attribute, no scale. -/
def new (path : Path) (type : DataType) (dims : List Nat) (extensible : Bool) (chunkRows : Nat)
    (fill : Datum) : Dataset where
  path
  type
  dims
  extensible
  chunkRows := max chunkRows 1
  fill
  chunks := ∅
  attributes := ∅
  scaleName := none
  scales := dims.map fun _ => []

instance : Inhabited Dataset := ⟨new .root default [] false 1 default⟩

/-- The number of axes. -/
def rank (d : Dataset) : Nat := d.dims.length

/-- The number of rows; without axes the one cell is a row. -/
def rows (d : Dataset) : Nat := d.dims.head?.getD 1

/-- The number of cells of a row. -/
def rowLength (d : Dataset) : Nat := volume d.dims.tail

/-- The number of cells. -/
def length (d : Dataset) : Nat := d.rows * d.rowLength

/-- The scales attached to an axis. -/
def scalesAt (d : Dataset) (axis : Nat) : List AttachedScale := d.scales[axis]?.getD []

/-- All the cells. -/
def full (d : Dataset) : Selection := ⟨d.dims.map fun _ => 0, d.dims⟩

/-- The cells of a row. -/
def rowSelection (d : Dataset) (row : Nat) : Selection :=
  match d.full with
  | ⟨_ :: start, _ :: count⟩ => ⟨row :: start, 1 :: count⟩
  | s => s

/-! ## Selections of a dataset

A selection fits if it ends within the extent of each axis.  Where it ends is the sum of two
machine words; a sum that would decide this and is no word has no answer, as a program may stop
there or go on with another number. -/

/-- What is wrong with a selection. -/
inductive Overrun where
  /-- It goes beyond the extent of an axis. -/
  | beyond (axis : Nat)
  /-- Where it ends on an axis is no machine word. -/
  | overflow

/-- What is wrong with a selection on the first axis that it does not fit. -/
def overrun? : (axis : Nat) → (start count dims : List Nat) → Option Overrun
  | axis, s :: start, c :: count, d :: dims =>
    if s + c ≤ d then overrun? (axis + 1) start count dims
    else some (if IsWord (s + c) then .beyond axis else .overflow)
  | _, _, _, _ => none

/-- Refuse a selection of another rank or beyond the extents. -/
def checkSelection (d : Dataset) (operation : String) (s : Selection) : Except StorageError Unit :=
  let shown := s!"start {showExtents s.start}, count {showExtents s.count}"
  if s.start.length ≠ d.rank ∨ s.count.length ≠ d.rank then
    .error (.shapeMismatch d.path operation s!"rank {d.rank} selection" shown)
  else
    match overrun? 0 s.start s.count d.dims with
    | none => .ok ()
    | some (.beyond 0) =>
      let last := s.start.head?.getD 0 + (s.count.head?.getD 0 - 1)
      .error (.invalidIndex d.path operation last d.rows)
    | some (.beyond _) => .error (.shapeMismatch d.path operation (showExtents d.dims) shown)
    | some .overflow => .error (.overflow d.path operation)

/-! ## Cells

A cell has a row, a chunk and a place in the chunk.  These are numbers here; that machine words
lead to the same place, wherever the numbers are words, is shown of `Dataset.writeIn` and
`Dataset.readIn`. -/

def rowOf (cell : List Nat) : Nat := cell.head?.getD 0

/-- The place of a cell in its row. -/
def within (d : Dataset) (cell : List Nat) : Nat :=
  Selection.offset (Selection.strides d.dims.tail) cell.tail

def chunkOf (d : Dataset) (cell : List Nat) : Nat := rowOf cell / d.chunkRows

/-- The place of a cell in its chunk. -/
def slotOf (d : Dataset) (cell : List Nat) : Nat :=
  (rowOf cell % d.chunkRows) * d.rowLength + d.within cell

/-- The number of cells of a chunk. -/
def chunkLength (d : Dataset) : Nat := d.chunkRows * max d.rowLength 1

/-- What a cell holds. -/
def cell (d : Dataset) (index : List Nat) : Datum :=
  match d.chunks.get? (d.chunkOf index) with
  | none => d.fill
  | some chunk => chunk[d.slotOf index]?.getD d.fill

/-- The dataset with one cell written. -/
def setCell (d : Dataset) (index : List Nat) (v : Datum) : Dataset :=
  let key := d.chunkOf index
  let chunk := (d.chunks.get? key).getD (Array.replicate d.chunkLength d.fill)
  { d with chunks := d.chunks.insert key (chunk.setIfInBounds (d.slotOf index) v) }

/-- The dataset with cells written one after the other. -/
def setCells (d : Dataset) (cells : List (List Nat)) (values : List Datum) : Dataset :=
  (cells.zip values).foldl (fun d (index, v) => d.setCell index v) d

/-- Write values over a selection, one for each cell. -/
def write (d : Dataset) (operation : String) (s : Selection) (values : List Datum) :
    Except StorageError Dataset := do
  d.checkSelection operation s
  let cells := s.cells
  if cells.length ≠ values.length then
    .error (.shapeMismatch d.path operation s!"{cells.length} elements"
      s!"{values.length} elements")
  else
    .ok (d.setCells cells values)

/-- The values of a selection, in row-major order. -/
def read (d : Dataset) (operation : String) (s : Selection) : Except StorageError (List Datum) := do
  d.checkSelection operation s
  return s.cells.map d.cell

/-! ## Changes other than writes -/

/-- Give the first axis a new extent, not below the old one. -/
def extend (d : Dataset) (extent : Nat) : Except StorageError Dataset :=
  match d.extensible, d.dims with
  | true, old :: rest =>
    if extent < old then
      .error (.shapeMismatch d.path "extend" s!"extent >= {old}" (toString extent))
    else .ok { d with dims := extent :: rest }
  | _, _ => .error (.notExtensible d.path "extend")

/-- Name the dataset as a scale. -/
def markScale (d : Dataset) (name : String) : Dataset := { d with scaleName := some name }

/-- Attach a scale to an axis; a scale that is already there stays as it is. -/
def attachScale (d : Dataset) (axis : Nat) (s : AttachedScale) : Except StorageError Dataset :=
  if d.scales.length ≤ axis then .error (.invalidIndex d.path "attach_scale" axis d.rank)
  else if (d.scalesAt axis).any (·.scale = s.scale) then .ok d
  else .ok { d with scales := d.scales.modify axis (· ++ [s]) }

end Dataset
end StudyArchive
