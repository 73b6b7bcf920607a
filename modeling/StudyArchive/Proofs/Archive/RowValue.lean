import StudyArchive.Proofs.Archive.Blocks
/-
# Values of rows

A growing dataset is a list of rows, each of them a single element, a vector, a matrix or a list of
matrices.  Such a value is appended, or set at an index, and goes to its row cell by cell
(`RowValue.ends_appending`, `RowValue.ends_setting`); the reader of its rank, given the flag that it
was written with, gets it back from there (`RowValue.readsBack`).
-/

namespace StudyArchive

open Archive Dataset

/-- A value for a row of a dataset; matrices come with the flag that they are written with. -/
inductive RowValue where
  | scalar (e : ElementType) (v : e.Value)
  | vector (e : ElementType) (values : List e.Value)
  | matrix (e : ElementType) (m : Matrix e.Value) (transpose : Bool)
  | matrices (e : ElementType) (ms : List (Matrix e.Value)) (transpose : Bool)

namespace RowValue

/-- The type of the elements. -/
def type : RowValue → ElementType
  | scalar e _ | vector e _ | matrix e _ _ | matrices e _ _ => e

/-- The cells of the row. -/
def data : RowValue → List Datum
  | scalar e v => [e.toDatum v]
  | vector e values => values.map e.toDatum
  | matrix e m transpose => (TypedRead.unfolded transpose m).map e.toDatum
  | matrices e ms transpose => (ms.flatMap (TypedRead.unfolded transpose)).map e.toDatum

/-- A value that makes up a row of the given extents. -/
def Fits (tail : List Nat) : RowValue → Prop
  | scalar _ _ => tail = []
  | vector _ values => tail = [values.length]
  | matrix _ m transpose => tail = diskShape m transpose
  | matrices _ ms transpose =>
    ∃ room, tail = ms.length :: room ∧ ∀ m ∈ ms, room = diskShape m transpose

/-- Append the value. -/
def appending (path : Path) : RowValue → TypedWrite
  | scalar e v => .appendScalar path e v
  | vector e values => .appendVector path e values
  | matrix e m transpose => .appendMatrix path e m transpose
  | matrices e ms transpose => .appendMatrices path e ms transpose

/-- Set the value at an index. -/
def setting (path : Path) (index : Nat) : RowValue → TypedWrite
  | scalar e v => .setScalar path e v index
  | vector e values => .setVector path e values index true
  | matrix e m transpose => .setMatrix path e m index transpose
  | matrices e ms transpose => .setMatrices path e ms index transpose

/-- The readers of the value's rank get it from an index. -/
def ReadsBack (a : Archive) (path : Path) (index : Nat) : RowValue → Prop
  | scalar e v => a.readElement path e index = .ok v ∧
    ∃ values, a.readVector path e = .ok values ∧ values[index]? = some v
  | vector e values => a.readRow path e index = .ok values
  | matrix e m transpose => a.readMatrixAt path e index transpose = .ok m
  | matrices e ms transpose => a.readMatricesAt path e index transpose = .ok ms

section
variable {e : ElementType} {tail : List Nat} {v : e.Value} {transpose : Bool}

/-! ## Cells -/

theorem length_data {v : RowValue} (fits : v.Fits tail) : v.data.length = volume tail := by
  cases v with
  | scalar e v =>
    obtain rfl : tail = [] := fits
    rfl
  | vector e values =>
    obtain rfl : tail = [values.length] := fits
    simp [data, volume]
  | matrix e m transpose =>
    obtain rfl : tail = diskShape m transpose := fits
    rw [data, List.length_map, TypedRead.length_unfolded]
  | matrices e ms transpose =>
    obtain ⟨room, rfl, shapes⟩ := fits
    have sizes : ms.map (fun m => (TypedRead.unfolded transpose m).length) =
        List.replicate ms.length (volume room) := by
      rw [← List.map_const']
      refine List.map_congr_left fun m mem => ?_
      rw [TypedRead.length_unfolded, shapes m mem]
    rw [data, List.length_map, List.length_flatMap, sizes, List.sum_replicate_nat, volume]

end

/-! ## Writing

Each rank has its own call; all of them grow a row, if they append, and put the data over it. -/

section
variable {a : Archive} {path : Path} {id : DatasetId} {e : ElementType} {n : Nat} {tail : List Nat}

/-- Put the value over a row. -/
def put (id : DatasetId) (operation : String) (index : Nat) : RowValue → Action Unit
  | scalar _ v => putScalar id operation [index] v
  | vector _ values => putVector id operation [index] values
  | matrix _ m transpose => putMatrix id operation [index] m transpose
  | matrices _ ms transpose => putMatrices id operation [index] ms transpose

/-- The number of axes of the dataset. -/
def rank : RowValue → Nat
  | scalar .. => 1
  | vector .. => 2
  | matrix .. => 3
  | matrices .. => 4

/-- A value that was put over a row is there; that a vector is as long as the row is checked
before. -/
theorem ends_put (ready : a.mounted.Ready) (known : id < a.tree.datasets.length) (path : Path)
    (dims : (a.dataset id).dims = n :: tail) {v : RowValue} (rank : tail.length + 1 = v.rank)
    (even : ∀ e values, v = .vector e values → tail = [values.length]) {operation : String}
    {index : Nat} :
    Ends (v.put id operation index) a
      (fun _ a' => v.Fits tail ∧ PutAt a path id [index] v.data a') (fun _ _ => True) := by
  have drop : (a.dataset id).dims.drop [index].length = tail := by rw [dims]; rfl
  cases v with
  | scalar e v =>
    obtain rfl := List.eq_nil_of_length_eq_zero (Nat.succ.inj rank)
    have block : Selection.ofCell [index] = .ofBlock [index] ((a.dataset id).dims.drop 1) := by
      rw [dims]
      rfl
    exact (ends_put_at ready known path block).imp fun _ _ put => ⟨rfl, put⟩
  | vector e values =>
    obtain rfl := even e values rfl
    have block : Selection.mk ([index] ++ [0]) ([index].map (fun _ => 1) ++ [values.length]) =
        .ofBlock [index] ((a.dataset id).dims.drop 1) := by
      rw [dims]
      rfl
    exact (ends_put_at ready known path block).imp fun _ _ put => ⟨rfl, put⟩
  | matrix e m transpose =>
    refine (ends_putMatrix_at ready known path).imp fun _ _ put => ?_
    exact ⟨drop.symm.trans put.1, put.2⟩
  | matrices e ms transpose =>
    obtain ⟨depth, room, rfl⟩ := List.exists_cons_of_length_eq_add_one (Nat.succ.inj rank)
    refine (ends_putMatrices_at ready known path drop).imp ?_
    rintro _ a' ⟨count, shapes, put⟩
    exact ⟨⟨room, by rw [count], shapes⟩, put⟩

variable (coherent : a.Coherent) (denotes : a.tree.denoted? path = some id)

include coherent denotes

variable {operation : String} (type : (a.dataset id).type = .scalar e)
  (dims : (a.dataset id).dims = n :: tail)

include dims

/-- Growing a dataset and putting a value over the new row. -/
theorem ends_grow_put (extensible : (a.dataset id).extensible = true) {v : RowValue}
    (rank : tail.length + 1 = v.rank)
    (even : ∀ e values, v = .vector e values → tail = [values.length]) :
    Ends (grow path id operation >>= fun i => v.put id operation i) a
      (fun _ a' => v.Fits tail ∧
        ∃ d', Appended (a.dataset id) v.data d' ∧ Altered a path id d' a')
      (fun _ _ => True) := by
  have known := coherent.ready.sound.lt_of_denoted? denotes
  refine ends_bind.2 ((ends_grow_altered coherent.ready (Tree.getElem?_of_lt known) path extensible
    operation).mono ?_ fun _ _ _ => trivial)
  rintro _ a₁ ⟨rfl, -, d₁, grown, altered⟩
  have dims₁ : (a₁.dataset id).dims = ((a.dataset id).rows + 1) :: tail := by
    rw [altered.here, grown.dims]
    exact congrArg _ (by rw [show a.tree.dataset id = a.dataset id from rfl, dims, List.tail_cons])
  refine (ends_put altered.ready (altered.there known) path dims₁ rank even).imp ?_
  rintro _ a₂ ⟨fits, d₂, wrote, altered'⟩
  have wrote := wrote.wrote dims₁
  rw [altered.here] at wrote
  exact ⟨fits, d₂, grown.wrote wrote, altered.trans altered'⟩

include type

theorem ends_appending (extensible : (a.dataset id).extensible = true) (v : RowValue) :
    Ends (v.appending path).run a
      (fun _ a' => v.type = e ∧ v.Fits tail ∧
        ∃ d', Appended (a.dataset id) v.data d' ∧ Altered a path id d' a')
      (fun _ _ => True) := by
  have element {e' : ElementType} (same : (a.dataset id).type = .scalar e') : e' = e :=
    (DataType.scalar.inj (type.symm.trans same)).symm
  have axes {k : Nat} (rank : (a.dataset id).rank = k) : tail.length + 1 = k := by
    rw [← rank, Dataset.rank, dims, List.length_cons]
  have grows {operation : String} {v : RowValue} (same : v.type = e)
      (rank : tail.length + 1 = v.rank)
      (even : ∀ e values, v = .vector e values → tail = [values.length]) :
      Ends (grow path id operation >>= fun i => v.put id operation i) a
        (fun _ a' => v.type = e ∧ v.Fits tail ∧
          ∃ d', Appended (a.dataset id) v.data d' ∧ Altered a path id d' a')
        (fun _ _ => True) :=
    (ends_grow_put coherent denotes dims extensible rank even).imp (fun _ _ h => ⟨same, h⟩)
  cases v with
  | scalar e' v =>
    refine ends_find_denoted coherent denotes fun same rank => ?_
    exact grows (v := .scalar e' v) (element same) (axes rank) fun _ _ h => by cases h
  | vector e' values =>
    refine ends_find_denoted coherent denotes fun same rank => ends_bind.2 (ends_get.2
      (ends_bind.2 (ends_liftExcept.2 ⟨fun _ checked => ?_, fun _ _ => trivial⟩)))
    have trailing := tail_of_checkTrailing checked
    rw [dims, List.tail_cons] at trailing
    refine grows (v := .vector e' values) (element same) (axes rank) fun _ _ h => ?_
    cases h
    exact trailing
  | matrix e' m transpose =>
    refine ends_find_denoted coherent denotes fun same rank => ends_bind.2 (ends_get.2
      (ends_bind.2 (ends_liftExcept.2 ⟨fun _ _ => ?_, fun _ _ => trivial⟩)))
    exact grows (v := .matrix e' m transpose) (element same) (axes rank) fun _ _ h => by cases h
  | matrices e' ms transpose =>
    refine ends_find_denoted coherent denotes fun same rank => ends_bind.2 (ends_get.2
      (ends_bind.2 (ends_liftExcept.2 ⟨fun _ _ => ?_, fun _ _ => trivial⟩)))
    exact grows (v := .matrices e' ms transpose) (element same) (axes rank)
      fun _ _ h => by cases h

/-- A value that was set is in a row that was there. -/
theorem ends_setting (full : 0 ∉ tail) (index : Nat) (v : RowValue) :
    Ends (v.setting path index).run a
      (fun _ a' => index < n ∧ v.type = e ∧ v.Fits tail ∧
        ∃ d', Wrote (a.dataset id) index v.data d' ∧ Altered a path id d' a')
      (fun _ _ => True) := by
  have known := coherent.ready.sound.lt_of_denoted? denotes
  have element {e' : ElementType} (same : (a.dataset id).type = .scalar e') : e' = e :=
    (DataType.scalar.inj (type.symm.trans same)).symm
  have axes {k : Nat} (rank : (a.dataset id).rank = k) : tail.length + 1 = k := by
    rw [← rank, Dataset.rank, dims, List.length_cons]
  have puts {operation : String} {v : RowValue} (same : v.type = e)
      (rank : tail.length + 1 = v.rank)
      (even : ∀ e values, v = .vector e values → tail = [values.length]) :
      Ends (v.put id operation index) a
        (fun _ a' => index < n ∧ v.type = e ∧ v.Fits tail ∧
          ∃ d', Wrote (a.dataset id) index v.data d' ∧ Altered a path id d' a')
        (fun _ _ => True) := by
    refine (ends_put coherent.ready known path dims rank even).imp ?_
    rintro _ a' ⟨fits, d', wrote, altered⟩
    have some : v.data ≠ [] := by
      refine List.ne_nil_of_length_pos ?_
      rw [length_data fits]
      exact Selection.volume_pos fun n mem => Nat.pos_of_ne_zero fun none => full (none ▸ mem)
    have inside := wrote.room some
    rw [dims] at inside
    cases inside with
    | cons low _ => exact ⟨low, same, fits, d', wrote.wrote dims, altered⟩
  cases v with
  | scalar e' v =>
    refine ends_find_denoted coherent denotes fun same rank => ?_
    exact puts (v := .scalar e' v) (element same) (axes rank) fun _ _ h => by cases h
  | vector e' values =>
    refine ends_find_denoted coherent denotes fun same rank => ends_bind.2 (ends_get.2
      (ends_bind.2 (ends_liftExcept.2 ⟨fun _ checked => ?_, fun _ _ => trivial⟩)))
    have trailing := tail_of_checkTrailing checked
    rw [dims, List.tail_cons] at trailing
    refine puts (v := .vector e' values) (element same) (axes rank) fun _ _ h => ?_
    cases h
    exact trailing
  | matrix e' m transpose =>
    refine ends_find_denoted coherent denotes fun same rank => ?_
    exact puts (v := .matrix e' m transpose) (element same) (axes rank) fun _ _ h => by cases h
  | matrices e' ms transpose =>
    refine ends_find_denoted coherent denotes fun same rank => ?_
    exact puts (v := .matrices e' ms transpose) (element same) (axes rank) fun _ _ h => by cases h

end

/-! ## Reading

The reader of the rank finds the data of the row, folds them, and has the value again. -/

section
variable {a : Archive} {path : Path} {id : DatasetId} {n : Nat} {tail : List Nat}

theorem exists_readVector {e : ElementType} {v : e.Value}
    (looked : ∀ operation, a.lookup path operation = .ok id) (typed : (a.dataset id).Typed)
    (dims : (a.dataset id).dims = [n]) (type : (a.dataset id).type = .scalar e) {index : Nat}
    (low : index < n) (here : (a.dataset id).cell [index] = e.toDatum v) :
    ∃ values, a.readVector path e = .ok values ∧ values[index]? = some v := by
  obtain ⟨values, read, same⟩ := run_eq_ok looked typed type .vector
    (by rw [Dataset.rank, dims]; rfl) fun s mem => List.mem_singleton.1 mem ▸ fits_full _
  refine ⟨values, read, ?_⟩
  have whole : (a.dataset id).full = .ofBlock [] [n] := by
    rw [Dataset.full, dims]
    rfl
  have inside : Inside [n] [index] := .cons low .nil
  have place : Selection.rowMajor [n] [index] = index := by simp [Selection.rowMajor, volume]
  have at_ := Selection.getElem?_indices inside
  rw [place] at at_
  rw [TypedRead.selections, List.flatMap_singleton, whole, Selection.cells_ofBlock] at same
  have there := congrArg (·[index]?) same
  simp only [List.getElem?_map, at_, Option.map_some, List.nil_append, here] at there
  obtain ⟨w, found, equal⟩ := Option.map_eq_some_iff.1 there
  have element := congrArg e.ofDatum? equal
  rw [e.ofDatum?_toDatum, e.ofDatum?_toDatum] at element
  rw [found, element]

/-- A value that a row holds is what the readers get from it. -/
theorem readsBack (looked : ∀ operation, a.lookup path operation = .ok id)
    (typed : (a.dataset id).Typed) (dims : (a.dataset id).dims = n :: tail) (full : 0 ∉ tail)
    {v : RowValue} (type : (a.dataset id).type = .scalar v.type) (fits : v.Fits tail) {index : Nat}
    (low : index < n) (here : (a.dataset id).row index = v.data) :
    v.ReadsBack a path index := by
  have inside : Inside ((a.dataset id).dims.take [index].length) [index] := by
    rw [dims]
    exact .cons low .nil
  have drop : (a.dataset id).dims.drop [index].length = tail := by rw [dims]; rfl
  have block := row_eq_block dims index
  rw [here] at block
  have found {rank : Nat} (axes : tail.length + 1 = rank) (operation : String) :
      a.typed path operation rank v.type = .ok (a.dataset id) :=
    typed_eq_ok looked (by rw [Dataset.rank, dims, List.length_cons, axes]) type operation
  cases v with
  | scalar e v =>
    obtain rfl : tail = [] := fits
    have read : (a.dataset id).read "read_element" ⟨[index], [1]⟩ = .ok ([v].map e.toDatum) :=
      (read_block inside drop).trans (congrArg Except.ok block.symm)
    have single : single (a.dataset id) "read_element" e ⟨[index], [1]⟩ = .ok v :=
      (bind_of_eq_ok read _).trans (bind_of_eq_ok (elements_map_toDatum _ _ [v]) _)
    refine ⟨(bind_of_eq_ok (found rfl _) _).trans single, ?_⟩
    exact exists_readVector looked typed dims type low (cell_of_row dims here .nil rfl)
  | vector e values =>
    obtain rfl : tail = [values.length] := fits
    have read : (a.dataset id).read "read_row" ((a.dataset id).rowSelection index) =
        .ok (values.map e.toDatum) := by
      rw [rowSelection_eq dims]
      exact (read_block inside drop).trans (congrArg Except.ok block.symm)
    refine (bind_of_eq_ok (found rfl _) _).trans ((bind_of_eq_ok read _).trans ?_)
    exact elements_map_toDatum _ _ values
  | matrix e m transpose =>
    obtain rfl : tail = diskShape m transpose := fits
    have axes : (diskShape m transpose).length + 1 = 3 := by cases transpose <;> rfl
    exact (bind_of_eq_ok (found axes _) _).trans (getMatrix_eq_ok inside drop block.symm _)
  | matrices e ms transpose =>
    obtain ⟨room, rfl, shapes⟩ := fits
    obtain ⟨m, mem⟩ : ∃ m, m ∈ ms := by
      refine List.exists_mem_of_ne_nil ms fun none => full ?_
      rw [none]
      exact List.mem_cons_self
    have axes : (ms.length :: room).length + 1 = 4 := by
      rw [shapes m mem]
      cases transpose <;> rfl
    have depth : (a.dataset id).dims[1]?.getD 0 = ms.length := by rw [dims]; rfl
    refine (bind_of_eq_ok (found axes _) _).trans ?_
    rw [depth]
    exact getMatrices_eq_ok inside drop shapes block.symm _

end

end RowValue
end StudyArchive
