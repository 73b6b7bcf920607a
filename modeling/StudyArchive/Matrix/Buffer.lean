import StudyArchive.Word
/-
# Matrices as buffers

At the edge of the system a matrix is two extents and a list of cells, column after column.  Nothing
is said of the list's length, and all that is done to the cells is index arithmetic on words, in
loops over rows and columns.  Such a computation comes to nothing where a sum or a product is no
word that the program can go on with, and where an index is outside the list.
-/

namespace StudyArchive

/-- Extents, and cells column after column. -/
structure Buffer (α : Type) where
  rows : Nat
  cols : Nat
  data : List α
  deriving DecidableEq

namespace Buffer

variable {α : Type} (a : Arithmetic)

/-- A buffer with one value for each cell. -/
def filled (rows cols : Nat) (v : α) : Answer (Buffer α) := do
  return ⟨rows, cols, .replicate (← a.word (rows * cols)) v⟩

/-- A buffer of default values. -/
def new [Inhabited α] (rows cols : Nat) : Answer (Buffer α) := filled a rows cols default

/-- A buffer of the given cells, if their number is right. -/
def ofColumnMajor (rows cols : Nat) (data : List α) : Answer (Option (Buffer α)) := do
  return if data.length = (← a.word (rows * cols)) then some ⟨rows, cols, data⟩ else none

/-- The cell at a place of a line, in cells that stand line after line. -/
def entry (data : List α) (line width place : Nat) : Answer α := do
  data[← a.word ((← a.word (line * width)) + place)]?

/-- Cells that stand row after row, gathered column by column, if their number is right. -/
def ofRowMajor (rows cols : Nat) (data : List α) : Answer (Option (Buffer α)) := do
  if data.length ≠ (← a.word (rows * cols)) then return none
  else
    let columns ← (List.range cols).mapM fun c =>
      (List.range rows).mapM fun r => entry a data r cols c
    return some ⟨rows, cols, columns.flatten⟩

/-- The rows put one after the other, if each is as long as the first. -/
def ofRows (rows : List (List α)) : Answer (Option (Buffer α)) :=
  let cols := (rows.head?.map List.length).getD 0
  if rows.any (·.length ≠ cols) then some none
  else ofRowMajor a rows.length cols rows.flatten

/-- The cell at a row and column, if they are within the extents. -/
def get (b : Buffer α) (r c : Nat) : Answer (Option α) := do
  if r < b.rows ∧ c < b.cols then return some (← entry a b.data c b.rows r) else return none

/-- The buffer with one cell overwritten, if it is within the extents. -/
def set (b : Buffer α) (r c : Nat) (v : α) : Answer (Buffer α) := do
  if r < b.rows ∧ c < b.cols then
    let place ← a.word ((← a.word (c * b.rows)) + r)
    if place < b.data.length then return { b with data := b.data.set place v } else none
  else return b

/-- A column as a slice of the buffer. -/
def column (b : Buffer α) (c : Nat) : Answer (List α) := do
  let first ← a.word (c * b.rows)
  let past ← a.word ((← a.word (c + 1)) * b.rows)
  if first ≤ past ∧ past ≤ b.data.length then return (b.data.drop first).take (past - first)
  else none

/-- A row, gathered from all columns. -/
def row (b : Buffer α) (r : Nat) : Answer (List α) :=
  (List.range b.cols).mapM fun c => entry a b.data c b.rows r

/-- The cells row after row. -/
def toRowMajor (b : Buffer α) : Answer (List α) := do
  return (← (List.range b.rows).mapM (row a b)).flatten

/-- The buffer read as if it stood row after row; no cells at all if their number is wrong. -/
def transpose (b : Buffer α) : Answer (Buffer α) := do
  return (← ofRowMajor a b.cols b.rows b.data).getD ⟨b.cols, b.rows, []⟩

end Buffer
end StudyArchive
