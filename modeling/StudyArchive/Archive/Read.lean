import StudyArchive.Archive.Write
/-
# Reading datasets

Each reader asks for a dataset of its rank and element type and gives back what the writer of the
same shape put there.
-/

namespace StudyArchive.Archive

/-- Data as values of an element type. -/
def elements (d : Dataset) (operation : String) (e : ElementType) :
    List Datum → Except StorageError (List e.Value)
  | [] => .ok []
  | v :: rest =>
    match e.ofDatum? v with
    | some value => do return value :: (← elements d operation e rest)
    | none => .error (.typeMismatch d.path operation e.name v.kind)

/-- The one value of a selection. -/
def single (d : Dataset) (operation : String) (e : ElementType) (s : Selection) :
    Except StorageError e.Value := do
  match ← elements d operation e (← d.read operation s) with
  | value :: _ => return value
  | [] => throw (.shapeMismatch d.path operation "1 element" "0 elements")

/-- The matrix over the two axes after the leading indices. -/
def getMatrix (d : Dataset) (operation : String) (e : ElementType) (lead : List Nat)
    (transpose : Bool) : Except StorageError (Matrix e.Value) := do
  let rows := d.dims[lead.length]?.getD 0
  let cols := d.dims[lead.length + 1]?.getD 0
  let s : Selection := ⟨lead ++ [0, 0], lead.map (fun _ => 1) ++ [rows, cols]⟩
  let data := (← elements d operation e (← d.read operation s)).toArray
  let matrix? :=
    if transpose then Matrix.ofColumnMajor? cols rows data else Matrix.ofRowMajor? rows cols data
  match matrix? with
  | some m => return m
  | none => throw (.shapeMismatch d.path operation (showExtents [rows, cols]) "short read")

/-- The dataset at a path, of a given rank and element type. -/
def typed (a : Archive) (path : Path) (operation : String) (rank : Nat) (e : ElementType) :
    Except StorageError Dataset := do
  return a.dataset (← a.lookupTyped path operation rank e)

/-- The one value of a dataset without axes. -/
def readScalar (a : Archive) (path : Path) (e : ElementType) : Except StorageError e.Value := do
  let operation := "read_scalar"
  single (← a.typed path operation 0 e) operation e ⟨[], []⟩

/-- A value of a vector. -/
def readElement (a : Archive) (path : Path) (e : ElementType) (index : Nat) :
    Except StorageError e.Value := do
  let operation := "read_element"
  single (← a.typed path operation 1 e) operation e ⟨[index], [1]⟩

def readVector (a : Archive) (path : Path) (e : ElementType) :
    Except StorageError (List e.Value) := do
  let operation := "read_vector"
  let d ← a.typed path operation 1 e
  elements d operation e (← d.read operation d.full)

def readRow (a : Archive) (path : Path) (e : ElementType) (index : Nat) :
    Except StorageError (List e.Value) := do
  let operation := "read_row"
  let d ← a.typed path operation 2 e
  elements d operation e (← d.read operation (d.rowSelection index))

def readMatrix (a : Archive) (path : Path) (e : ElementType) (transpose : Bool) :
    Except StorageError (Matrix e.Value) := do
  let operation := "read_matrix"
  getMatrix (← a.typed path operation 2 e) operation e [] transpose

/-- A matrix of a list of matrices. -/
def readMatrixAt (a : Archive) (path : Path) (e : ElementType) (index : Nat) (transpose : Bool) :
    Except StorageError (Matrix e.Value) := do
  let operation := "read_matrix_at"
  getMatrix (← a.typed path operation 3 e) operation e [index] transpose

/-- A list of matrices at an index. -/
def readMatricesAt (a : Archive) (path : Path) (e : ElementType) (index : Nat) (transpose : Bool) :
    Except StorageError (List (Matrix e.Value)) := do
  let operation := "read_vector_of_matrices_at"
  let d ← a.typed path operation 4 e
  (List.range (d.dims[1]?.getD 0)).mapM fun k => getMatrix d operation e [index, k] transpose

def readRecords (a : Archive) (path : Path) : Except StorageError (List Datum) := do
  let operation := "read_records"
  let d := a.dataset (← a.lookupRank path operation 1)
  if d.type.scalar?.isSome then
    throw (.typeMismatch path operation d.type.name "compound")
  d.read operation d.full

def readSlab (a : Archive) (path : Path) (s : Selection) : Except StorageError (List Datum) := do
  let operation := "read_slab"
  (a.dataset (← a.lookup path operation)).read operation s

end StudyArchive.Archive
