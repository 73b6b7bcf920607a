/-
# Dense matrices

The cells of a matrix lie in one buffer, column after column.  Every constructor states the cell at
each row and column and fills the buffer from that, so the laws of the layout need one index rule:
cell `(r, c)` is at place `c * rows + r`.
-/

namespace StudyArchive

/-- A matrix with its cells in column-major order. -/
structure Matrix (α : Type) where
  rows : Nat
  cols : Nat
  /-- The cells, column after column. -/
  data : Array α
  /-- One cell for each column and row. -/
  size_data : data.size = cols * rows

namespace Matrix

variable {α β : Type}

instance [DecidableEq α] : DecidableEq (Matrix α) := fun a b =>
  if h : a.rows = b.rows ∧ a.cols = b.cols ∧ a.data = b.data then
    isTrue (by cases a; cases b; simp_all)
  else isFalse (fun e => h (by subst e; simp))

/-- The row of a place in the buffer. -/
def rowOf {rows cols : Nat} (i : Fin (cols * rows)) : Fin rows :=
  ⟨i.val % rows, Nat.mod_lt _ (Nat.pos_of_ne_zero fun h => by
    have := i.isLt
    simp [h] at this)⟩

/-- The column of a place in the buffer. -/
def colOf {rows cols : Nat} (i : Fin (cols * rows)) : Fin cols :=
  ⟨i.val / rows, (Nat.div_lt_iff_lt_mul (rowOf i).pos).2 i.isLt⟩

/-- The matrix with a given cell at each row and column. -/
def ofFn (rows cols : Nat) (f : Fin rows → Fin cols → α) : Matrix α :=
  ⟨rows, cols, Array.ofFn fun i : Fin (cols * rows) => f (rowOf i) (colOf i), by simp⟩

/-- The matrix with one value everywhere. -/
def filled (rows cols : Nat) (v : α) : Matrix α :=
  ⟨rows, cols, Array.replicate (cols * rows) v, by simp⟩

instance : Inhabited (Matrix α) := ⟨⟨0, 0, #[], by simp⟩⟩

/-- The matrix with the given buffer, if its length is right. -/
def ofColumnMajor? (rows cols : Nat) (data : Array α) : Option (Matrix α) :=
  if h : data.size = cols * rows then some ⟨rows, cols, data, h⟩ else none

/-- A row-major place lies inside the buffer. -/
theorem place_lt {rows cols : Nat} (r : Fin rows) (c : Fin cols) :
    r.val * cols + c.val < rows * cols := by
  have := Nat.mul_le_mul_right cols r.isLt
  have := c.isLt
  rw [Nat.succ_mul] at *
  omega

/-- The matrix with the given cells, row after row, if their number is right. -/
def ofRowMajor? (rows cols : Nat) (data : Array α) : Option (Matrix α) :=
  if h : data.size = rows * cols then
    some <| ofFn rows cols fun r c =>
      have inside : r.val * cols + c.val < data.size := h ▸ place_lt r c
      data[r.val * cols + c.val]
  else none

/-- The matrix with the given rows, if they are equally long. -/
def ofRows? (rows : List (List α)) : Option (Matrix α) :=
  let cols := (rows.head?.map List.length).getD 0
  if rows.any (·.length ≠ cols) then none
  else ofRowMajor? rows.length cols rows.flatten.toArray

/-- Whether there are no cells. -/
def isEmpty (m : Matrix α) : Bool := m.data.isEmpty

/-- The cell at a row and column of the matrix. -/
def cell (m : Matrix α) (r : Fin m.rows) (c : Fin m.cols) : α :=
  have inside : c.val * m.rows + r.val < m.data.size := m.size_data ▸ place_lt c r
  m.data[c.val * m.rows + r.val]

/-- The cell at a row and column, if the matrix has them. -/
def get? (m : Matrix α) (r c : Nat) : Option α :=
  if h : r < m.rows ∧ c < m.cols then some (m.cell ⟨r, h.1⟩ ⟨c, h.2⟩) else none

/-- The matrix with one cell replaced; outside the matrix nothing changes. -/
def set (m : Matrix α) (r c : Nat) (v : α) : Matrix α :=
  if r < m.rows ∧ c < m.cols then
    { m with
      data := m.data.setIfInBounds (c * m.rows + r) v
      size_data := by simp [m.size_data] }
  else m

/-- The cells of a row of the matrix. -/
def row (m : Matrix α) (r : Fin m.rows) : List α := List.ofFn fun c => m.cell r c

/-- The cells of a column of the matrix. -/
def column (m : Matrix α) (c : Fin m.cols) : List α := List.ofFn fun r => m.cell r c

/-- The cells of a row; a matrix without columns has no cell in any row. -/
def row? (m : Matrix α) (r : Nat) : Option (List α) :=
  if m.cols = 0 then some []
  else if h : r < m.rows then some (m.row ⟨r, h⟩) else none

/-- The cells of a column; a matrix without rows has no cell in any column. -/
def column? (m : Matrix α) (c : Nat) : Option (List α) :=
  if m.rows = 0 then some []
  else if h : c < m.cols then some (m.column ⟨c, h⟩) else none

/-- The rows, in order. -/
def rowList (m : Matrix α) : List (List α) := List.ofFn m.row

/-- The columns, in order. -/
def columnList (m : Matrix α) : List (List α) := List.ofFn m.column

/-- The cells row after row. -/
def toRowMajor (m : Matrix α) : List α := m.rowList.flatten

/-- The cells column after column. -/
def toColumnMajor (m : Matrix α) : List α := m.data.toList

/-- The matrix with rows and columns exchanged. -/
def transpose (m : Matrix α) : Matrix α := ofFn m.cols m.rows fun c r => m.cell r c

/-- The matrix with every cell replaced by its image. -/
def map (f : α → β) (m : Matrix α) : Matrix β :=
  ⟨m.rows, m.cols, m.data.map f, by simp [m.size_data]⟩

end Matrix
end StudyArchive
