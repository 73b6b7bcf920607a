/-
# Selections of cells

A selection is a box of cells: where it starts on each axis and how far it goes.  Its cells are
walked in row-major order, by a counter with one digit for each axis, the last axis fastest.
-/

namespace StudyArchive

/-- The number of cells of a box. -/
def volume : (extents : List Nat) → Nat
  | [] => 1
  | n :: rest => n * volume rest

/-- A box of cells. -/
structure Selection where
  /-- The first index on each axis. -/
  start : List Nat
  /-- The number of indices on each axis. -/
  count : List Nat
  deriving DecidableEq, Repr

namespace Selection

/-- The number of cells. -/
def size (s : Selection) : Nat := volume s.count

/-- The counter one step on, and whether all its digits have started over. -/
def advance : (count counter : List Nat) → List Nat × Bool
  | c :: count, i :: counter =>
    match advance count counter with
    | (rest, false) => (i :: rest, false)
    | (rest, true) => if i + 1 < c then ((i + 1) :: rest, false) else (0 :: rest, true)
  | _, _ => ([], true)

/-- So many readings of the counter, from one on. -/
def walk (count : List Nat) : (steps : Nat) → (counter : List Nat) → List (List Nat)
  | 0, _ => []
  | n + 1, counter => counter :: walk count n (advance count counter).1

/-- The cells of a selection, in row-major order.  A box that is empty on one axis has none, however
far it goes on the others. -/
def cells (s : Selection) : List (List Nat) :=
  (walk s.count s.size (s.count.map fun _ => 0)).map (List.zipWith (· + ·) s.start)

/-- The cell itself, as a selection. -/
def ofCell (cell : List Nat) : Selection := ⟨cell, cell.map fun _ => 1⟩

/-- How many cells of a box one step along each axis passes, in row-major order: on the last axis
one, on any other all those of a step on the next axis, as often as that axis is long. -/
def strides : (dims : List Nat) → List Nat
  | [] => []
  | [_] => [1]
  | _ :: n :: dims =>
    match strides (n :: dims) with
    | [] => []
    | stride :: rest => stride * n :: stride :: rest

/-- The number of cells that a cell lies behind the first one, each axis counted by its stride. -/
def offset : (strides cell : List Nat) → Nat
  | stride :: strides, i :: cell => i * stride + offset strides cell
  | _, _ => 0

end Selection
end StudyArchive
