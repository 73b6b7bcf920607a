import StudyArchive.Archive.Basic
import StudyArchive.Matrix
/-
# Writing to datasets

Appending gives a growing dataset one row more and writes it; setting writes over rows, columns or
cells that are there.  Matrices lie row after row on the disk: as they are, written row by row, or
transposed, written at once, as their buffer is the row-major buffer of the transpose.
-/

namespace StudyArchive.Archive

/-- The rows and columns of a matrix on the disk. -/
def diskShape {α : Type} (m : Matrix α) (transpose : Bool) : List Nat :=
  if transpose then [m.cols, m.rows] else [m.rows, m.cols]

/-- Refuse a row whose extents are not those of the dataset. -/
def checkTrailing (d : Dataset) (operation : String) (extents : List Nat) :
    Except StorageError Unit :=
  if d.dims.tail = extents then .ok ()
  else
    .error (.shapeMismatch d.path operation (showExtents d.dims.tail) (showExtents extents))

/-- Write data over a selection. -/
def put (id : DatasetId) (operation : String) (s : Selection) (data : List Datum) : Action Unit :=
  onContainer (Container.write id operation s data)

/-- Give a dataset one row more; the answer is its index. -/
def grow (path : Path) (id : DatasetId) (operation : String) : Action Nat := do
  let d := (← get).dataset id
  unless d.extensible do
    throw (.notExtensible path operation)
  let index := d.dims.head?.getD 0
  onContainer (Container.extend id (index + 1))
  unless (← get).handles.contains path do
    remember path id
  return index

/-! ## Values at an index

The steps that appending and setting share: a value goes to the cells below some leading indices,
a matrix row by row unless it is transposed. -/

section
variable {e : ElementType}

def putScalar (id : DatasetId) (operation : String) (lead : List Nat) (v : e.Value) :
    Action Unit :=
  put id operation (.ofCell lead) [e.toDatum v]

/-- Write values along the axis after the leading indices. -/
def putVector (id : DatasetId) (operation : String) (lead : List Nat) (values : List e.Value) :
    Action Unit :=
  put id operation ⟨lead ++ [0], lead.map (fun _ => 1) ++ [values.length]⟩
    (values.map e.toDatum)

/-- Write rows of a matrix one by one, from a row on. -/
def putRows (id : DatasetId) (operation : String) (lead : List Nat) (width : Nat) :
    (row : Nat) → List (List e.Value) → Action Unit
  | _, [] => return
  | row, values :: rest => do
    put id operation ⟨lead ++ [row, 0], lead.map (fun _ => 1) ++ [1, width]⟩
      (values.map e.toDatum)
    putRows id operation lead width (row + 1) rest

/-- Write a matrix over the two axes after the leading indices. -/
def putMatrix (id : DatasetId) (operation : String) (lead : List Nat) (m : Matrix e.Value)
    (transpose : Bool) : Action Unit := do
  let d := (← get).dataset id
  let shape := diskShape m transpose
  let room := d.dims.drop lead.length
  unless room = shape do
    throw (.shapeMismatch d.path operation (showExtents room) (showExtents shape))
  if transpose then
    put id operation ⟨lead ++ [0, 0], lead.map (fun _ => 1) ++ shape⟩
      (m.toColumnMajor.map e.toDatum)
  else
    putRows id operation lead m.cols 0 m.rowList

/-- Write matrices one by one, from an index of the axis after the leading indices on. -/
def putEach (id : DatasetId) (operation : String) (lead : List Nat) (transpose : Bool) :
    (k : Nat) → List (Matrix e.Value) → Action Unit
  | _, [] => return
  | k, m :: rest => do
    putMatrix id operation (lead ++ [k]) m transpose
    putEach id operation lead transpose (k + 1) rest

/-- Write matrices, as many as the axis after the leading indices has room for. -/
def putMatrices (id : DatasetId) (operation : String) (lead : List Nat)
    (matrices : List (Matrix e.Value)) (transpose : Bool) : Action Unit := do
  let d := (← get).dataset id
  let extent := d.dims[lead.length]?.getD 0
  unless matrices.length = extent do
    throw (.shapeMismatch d.path operation s!"{extent} matrices" s!"{matrices.length} matrices")
  putEach id operation lead transpose 0 matrices

end

/-- The dataset at a path, of a given rank and element type. -/
def find (path : Path) (operation : String) (rank : Nat) (e : ElementType) : Action DatasetId := do
  liftExcept ((← get).lookupTyped path operation rank e)

/-! ## Appending

The shape of what is appended is compared with that of a row before the row is made; what is wrong
with it after that leaves a row behind. -/

/-- Append a value to a growing vector. -/
def appendScalar (path : Path) (e : ElementType) (v : e.Value) : Action Unit := do
  let operation := "append_scalar"
  let id ← find path operation 1 e
  let index ← grow path id operation
  putScalar id operation [index] v

/-- Append a row to a growing matrix. -/
def appendVector (path : Path) (e : ElementType) (values : List e.Value) : Action Unit := do
  let operation := "append_vector"
  let id ← find path operation 2 e
  liftExcept (checkTrailing ((← get).dataset id) operation [values.length])
  let index ← grow path id operation
  putVector id operation [index] values

/-- Append a matrix to a growing list of matrices. -/
def appendMatrix (path : Path) (e : ElementType) (m : Matrix e.Value) (transpose : Bool) :
    Action Unit := do
  let operation := "append_matrix"
  let id ← find path operation 3 e
  liftExcept (checkTrailing ((← get).dataset id) operation (diskShape m transpose))
  let index ← grow path id operation
  putMatrix id operation [index] m transpose

/-- Append a list of matrices; before the row is made, only the first one's shape is checked. -/
def appendMatrices (path : Path) (e : ElementType) (matrices : List (Matrix e.Value))
    (transpose : Bool) : Action Unit := do
  let operation := "append_vector_of_matrices"
  let id ← find path operation 4 e
  let extents := match matrices with
    | first :: _ => matrices.length :: diskShape first transpose
    | [] => [0]
  liftExcept (checkTrailing ((← get).dataset id) operation extents)
  let index ← grow path id operation
  putMatrices id operation [index] matrices transpose

/-- Give a growing dataset a row that holds the fill; the answer is its index. -/
def reserveRow (path : Path) : Action Nat := do
  let operation := "reserve_row"
  let id ← liftExcept ((← get).lookup path operation)
  grow path id operation

/-! ## Writing over what is there

Nothing is checked here but what the selection alone does not tell: that a value is as long as the
row, the column or the dataset that it replaces. -/

/-- Set a value of a vector. -/
def setScalar (path : Path) (e : ElementType) (v : e.Value) (index : Nat) : Action Unit := do
  let operation := "set_scalar"
  putScalar (← find path operation 1 e) operation [index] v

def setVector (path : Path) (e : ElementType) (values : List e.Value) (index : Nat) (row : Bool) :
    Action Unit := do
  let operation := "set_vector"
  let id ← find path operation 2 e
  let d := (← get).dataset id
  if row then
    liftExcept (checkTrailing d operation [values.length])
    putVector id operation [index] values
  else
    let height := d.dims[0]?.getD 0
    let width := d.dims[1]?.getD 0
    unless index < width do
      throw (.invalidIndex path operation index width)
    unless values.length = height do
      throw (.shapeMismatch path operation s!"column of {height}" s!"{values.length} values")
    put id operation ⟨[0, index], [height, 1]⟩ (values.map e.toDatum)

/-- Set a matrix of a list of matrices. -/
def setMatrix (path : Path) (e : ElementType) (m : Matrix e.Value) (index : Nat)
    (transpose : Bool) : Action Unit := do
  let operation := "set_matrix"
  putMatrix (← find path operation 3 e) operation [index] m transpose

/-- Set a list of matrices. -/
def setMatrices (path : Path) (e : ElementType) (matrices : List (Matrix e.Value)) (index : Nat)
    (transpose : Bool) : Action Unit := do
  let operation := "set_vector_of_matrices"
  putMatrices (← find path operation 4 e) operation [index] matrices transpose

/-- Write the one value of a dataset without axes. -/
def writeScalar (path : Path) (e : ElementType) (v : e.Value) : Action Unit := do
  let operation := "write_scalar"
  putScalar (← find path operation 0 e) operation [] v

def writeVector (path : Path) (e : ElementType) (values : List e.Value) : Action Unit := do
  let operation := "write_vector"
  let id ← find path operation 1 e
  let d := (← get).dataset id
  let extent := d.dims.head?.getD 0
  unless values.length = extent do
    throw (.shapeMismatch path operation s!"{extent} values" s!"{values.length} values")
  putVector id operation [] values

def writeMatrix (path : Path) (e : ElementType) (m : Matrix e.Value) (transpose : Bool) :
    Action Unit := do
  let operation := "write_matrix"
  putMatrix (← find path operation 2 e) operation [] m transpose

/-- Set a record of a list of records. -/
def setRecord (path : Path) (v : Datum) (index : Nat) : Action Unit := do
  let operation := "set_record"
  let id ← liftExcept ((← get).lookupRank path operation 1)
  put id operation ⟨[index], [1]⟩ [v]

/-- Write records from the first one on. -/
def writeRecords (path : Path) (values : List Datum) : Action Unit := do
  let operation := "write_records"
  let id ← liftExcept ((← get).lookupRank path operation 1)
  put id operation ⟨[0], [values.length]⟩ values

def writeSlab (path : Path) (s : Selection) (values : List Datum) : Action Unit := do
  let operation := "write_slab"
  let id ← liftExcept ((← get).lookup path operation)
  put id operation s values

end StudyArchive.Archive
