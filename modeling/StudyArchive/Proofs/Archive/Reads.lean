import StudyArchive.Archive.Read
import StudyArchive.Proofs.Archive.Refused
import StudyArchive.Proofs.Container.Typed
/-
# Reading what is there

A reader finds a dataset of its rank and element type, and then it reads; nothing that it finds
there can be of another type or too short, because every cell of every dataset is of the dataset's
type (`Container.Reached.typed`).  So whatever was done to an archive, whose container may be closed
by now, a read of a selection that is within the extents gives the values of its cells
(`Archive.reads_of_reached`).
-/

namespace StudyArchive

/-! ## Elements -/

namespace ElementType

theorem exists_ofDatum? {e : ElementType} {v : Datum} (h : v.isElement e) :
    ∃ w, e.ofDatum? v = some w ∧ e.toDatum w = v := by
  cases e with
  | int32 =>
    cases v with
    | int n =>
      have fits : Datum.fitsInt32 n = true := h
      refine ⟨n.toInt32, if_pos fits, ?_⟩
      exact congrArg Datum.int (of_decide_eq_true fits)
    | _ => cases h
  | int64 =>
    cases v with
    | int n => exact ⟨n, rfl, rfl⟩
    | _ => cases h
  | uint64 =>
    cases v with
    | uint n => exact ⟨n, rfl, rfl⟩
    | _ => cases h
  | real =>
    cases v with
    | real x => exact ⟨x, rfl, rfl⟩
    | _ => cases h
  | text =>
    cases v with
    | text s => exact ⟨s, rfl, rfl⟩
    | _ => cases h

end ElementType

/-! ## Readers

A reader is a list of selections, which it reads one after the other.  It succeeds if they are all
within the extents. -/

/-- All the cells are within the extents. -/
theorem Dataset.fits_full (d : Dataset) : d.full.Fits d.dims := by
  unfold Dataset.full
  induction d.dims with
  | nil => simp [Selection.Fits]
  | cons n dims ih =>
    obtain ⟨start, count, within⟩ := ih
    refine ⟨by simp, by simp, ?_⟩
    exact .cons (by simp) within

/-- The readers of datasets of single elements, with the index that they ask for, and whether the
matrices are taken to be stored column after column. -/
inductive TypedRead where
  | scalar
  | element (index : Nat)
  | vector
  | row (index : Nat)
  | matrix (transpose : Bool)
  | matrixAt (index : Nat) (transpose : Bool)
  | matricesAt (index : Nat) (transpose : Bool)

namespace TypedRead

/-- The number of axes of the dataset. -/
def rank : TypedRead → Nat
  | scalar => 0
  | element _ | vector => 1
  | row _ | matrix _ => 2
  | matrixAt _ _ => 3
  | matricesAt _ _ => 4

/-- The matrix over the two axes behind some leading indices, as a selection. -/
def matrixSelection (d : Dataset) (lead : List Nat) : Selection :=
  ⟨lead ++ [0, 0],
    lead.map (fun _ => 1) ++ [d.dims[lead.length]?.getD 0, d.dims[lead.length + 1]?.getD 0]⟩

/-- What is read of a dataset. -/
def selections (d : Dataset) : TypedRead → List Selection
  | scalar => [⟨[], []⟩]
  | element index => [⟨[index], [1]⟩]
  | vector => [d.full]
  | row index => [d.rowSelection index]
  | matrix _ => [matrixSelection d []]
  | matrixAt index _ => [matrixSelection d [index]]
  | matricesAt index _ =>
    (List.range (d.dims[1]?.getD 0)).map fun k => matrixSelection d [index, k]

/-- The cells of a matrix as they were read. -/
def unfolded {α : Type} (transpose : Bool) (m : Matrix α) : List α :=
  if transpose then m.toColumnMajor else m.toRowMajor

/-- Read, and give the values in the order in which they were read. -/
def run (a : Archive) (path : Path) (e : ElementType) :
    TypedRead → Except StorageError (List e.Value)
  | scalar => do return [← a.readScalar path e]
  | element index => do return [← a.readElement path e index]
  | vector => a.readVector path e
  | row index => a.readRow path e index
  | matrix transpose => do return unfolded transpose (← a.readMatrix path e transpose)
  | matrixAt index transpose => do
    return unfolded transpose (← a.readMatrixAt path e index transpose)
  | matricesAt index transpose => do
    return (← a.readMatricesAt path e index transpose).flatMap (unfolded transpose)

end TypedRead

namespace Archive

variable {a : Archive} {path : Path} {id : DatasetId} {d : Dataset} {e : ElementType}
  {s : Selection}

theorem exists_elements {data : List Datum} (fit : ∀ v ∈ data, v.isElement e) (d : Dataset)
    (operation : String) :
    ∃ values, elements d operation e data = .ok values ∧ values.map e.toDatum = data := by
  induction data with
  | nil => exact ⟨[], rfl, rfl⟩
  | cons v rest ih =>
    obtain ⟨w, known, same⟩ := ElementType.exists_ofDatum? (fit v List.mem_cons_self)
    obtain ⟨values, read, more⟩ := ih fun v mem => fit v (List.mem_cons_of_mem _ mem)
    refine ⟨w :: values, ?_, ?_⟩
    · unfold elements
      rw [known]
      exact bind_of_eq_ok read _
    · rw [List.map_cons, same, more]

/-- What is read of a selection that is within the extents: one element for each cell. -/
theorem exists_read (typed : d.Typed) (type : d.type = .scalar e) (fits : s.Fits d.dims)
    (operation : String) : ∃ data values, d.read operation s = .ok data ∧
      elements d operation e data = .ok values ∧ values.map e.toDatum = s.cells.map d.cell ∧
      values.length = s.size := by
  have checked : d.checkSelection operation s = .ok () := Dataset.checkSelection_eq_ok_iff.2 fits
  have read : d.read operation s = .ok (s.cells.map d.cell) := bind_of_eq_ok checked _
  have fit : ∀ v ∈ s.cells.map d.cell, v.isElement e := by
    intro v mem
    obtain ⟨index, -, rfl⟩ := List.mem_map.1 mem
    have conforms := typed.cell index
    rw [type] at conforms
    exact conforms
  obtain ⟨values, elements, same⟩ := exists_elements fit d operation
  refine ⟨_, values, read, elements, same, ?_⟩
  have length := congrArg List.length same
  rwa [List.length_map, List.length_map,
    Selection.length_cells s (fits.1.trans fits.2.1.symm)] at length

theorem exists_single (typed : d.Typed) (type : d.type = .scalar e) (fits : s.Fits d.dims)
    (one : s.size = 1) (operation : String) :
    ∃ v, single d operation e s = .ok v ∧ [e.toDatum v] = s.cells.map d.cell := by
  obtain ⟨data, values, read, elements, same, length⟩ := exists_read typed type fits operation
  rw [one] at length
  obtain ⟨v, rfl⟩ := List.length_eq_one_iff.1 length
  refine ⟨v, ?_, same⟩
  unfold single
  rw [bind_of_eq_ok read, bind_of_eq_ok elements]
  rfl

/-- A matrix that is within the extents is read whole. -/
theorem exists_getMatrix (typed : d.Typed) (type : d.type = .scalar e) {lead : List Nat}
    (fits : (TypedRead.matrixSelection d lead).Fits d.dims) (operation : String)
    (transpose : Bool) :
    ∃ m, getMatrix d operation e lead transpose = .ok m ∧
      (TypedRead.unfolded transpose m).map e.toDatum =
        (TypedRead.matrixSelection d lead).cells.map d.cell := by
  obtain ⟨data, values, read, elements, same, length⟩ := exists_read typed type fits operation
  have size : values.length = d.dims[lead.length]?.getD 0 * d.dims[lead.length + 1]?.getD 0 := by
    rw [length, TypedRead.matrixSelection, Selection.size_lead]
    simp [volume]
  have made : ∃ m : Matrix e.Value, (if transpose then
        Matrix.ofColumnMajor? (d.dims[lead.length + 1]?.getD 0) (d.dims[lead.length]?.getD 0)
          values.toArray
      else Matrix.ofRowMajor? (d.dims[lead.length]?.getD 0) (d.dims[lead.length + 1]?.getD 0)
          values.toArray) = some m ∧ TypedRead.unfolded transpose m = values := by
    cases transpose with
    | true => exact Matrix.exists_ofColumnMajor size
    | false => exact Matrix.exists_ofRowMajor size
  obtain ⟨m, made, unfolds⟩ := made
  refine ⟨m, ?_, unfolds ▸ same⟩
  unfold TypedRead.matrixSelection at read
  unfold getMatrix
  simp only
  rw [bind_of_eq_ok read, bind_of_eq_ok elements]
  simp only [made]
  rfl

theorem exists_getMatrices (typed : d.Typed) (type : d.type = .scalar e) {index : Nat}
    {ks : List Nat} (fit : ∀ k ∈ ks, (TypedRead.matrixSelection d [index, k]).Fits d.dims)
    (operation : String) (transpose : Bool) :
    ∃ ms, ks.mapM (fun k => getMatrix d operation e [index, k] transpose) = .ok ms ∧
      (ms.flatMap (TypedRead.unfolded transpose)).map e.toDatum =
        (ks.map fun k => TypedRead.matrixSelection d [index, k]).flatMap fun s =>
          s.cells.map d.cell := by
  induction ks with
  | nil => exact ⟨[], rfl, rfl⟩
  | cons k ks ih =>
    obtain ⟨m, got, same⟩ := exists_getMatrix typed type (fit k List.mem_cons_self) operation
      transpose
    obtain ⟨ms, more, rest⟩ := ih fun k mem => fit k (List.mem_cons_of_mem _ mem)
    refine ⟨m :: ms, ?_, ?_⟩
    · rw [List.mapM_cons, bind_of_eq_ok got, bind_of_eq_ok more]
      rfl
    · rw [List.flatMap_cons, List.map_append, same, rest, List.map_cons, List.flatMap_cons]

/-! ## Each reader -/

theorem typed_eq_ok (looked : ∀ operation, a.lookup path operation = .ok id) {rank : Nat}
    (same : (a.dataset id).rank = rank) (type : (a.dataset id).type = .scalar e)
    (operation : String) : a.typed path operation rank e = .ok (a.dataset id) :=
  bind_of_eq_ok (lookupTyped_eq_ok (looked operation) same type) _

/-- Whatever reader it is: where what it reads is within the extents, it gives the values of the
cells, in order. -/
theorem run_eq_ok (looked : ∀ operation, a.lookup path operation = .ok id)
    (typed : (a.dataset id).Typed) (type : (a.dataset id).type = .scalar e) (read : TypedRead)
    (rank : (a.dataset id).rank = read.rank)
    (fit : ∀ s ∈ read.selections (a.dataset id), s.Fits (a.dataset id).dims) :
    ∃ values, read.run a path e = .ok values ∧ values.map e.toDatum =
      (read.selections (a.dataset id)).flatMap fun s => s.cells.map (a.dataset id).cell := by
  have found := typed_eq_ok looked rank type
  have one {s : Selection} {l : List Datum} (same : l = s.cells.map (a.dataset id).cell) :
      l = [s].flatMap fun s => s.cells.map (a.dataset id).cell := by
    rw [same, List.flatMap_singleton]
  cases read with
  | scalar =>
    obtain ⟨v, single, same⟩ := exists_single typed type (fit _ List.mem_cons_self) rfl
      "read_scalar"
    have got : a.readScalar path e = .ok v := (bind_of_eq_ok (found _) _).trans single
    exact ⟨[v], bind_of_eq_ok got _, one same⟩
  | element index =>
    obtain ⟨v, single, same⟩ := exists_single typed type (fit _ List.mem_cons_self) rfl
      "read_element"
    have got : a.readElement path e index = .ok v := (bind_of_eq_ok (found _) _).trans single
    exact ⟨[v], bind_of_eq_ok got _, one same⟩
  | vector =>
    obtain ⟨data, values, read, elements, same, -⟩ := exists_read typed type
      (fit _ List.mem_cons_self) "read_vector"
    have got : a.readVector path e = .ok values :=
      (bind_of_eq_ok (found _) _).trans ((bind_of_eq_ok read _).trans elements)
    exact ⟨values, got, one same⟩
  | row index =>
    obtain ⟨data, values, read, elements, same, -⟩ := exists_read typed type
      (fit _ List.mem_cons_self) "read_row"
    have got : a.readRow path e index = .ok values :=
      (bind_of_eq_ok (found _) _).trans ((bind_of_eq_ok read _).trans elements)
    exact ⟨values, got, one same⟩
  | matrix transpose =>
    obtain ⟨m, whole, same⟩ := exists_getMatrix typed type (fit _ List.mem_cons_self)
      "read_matrix" transpose
    have got : a.readMatrix path e transpose = .ok m := (bind_of_eq_ok (found _) _).trans whole
    exact ⟨_, bind_of_eq_ok got _, one same⟩
  | matrixAt index transpose =>
    obtain ⟨m, whole, same⟩ := exists_getMatrix typed type (fit _ List.mem_cons_self)
      "read_matrix_at" transpose
    have got : a.readMatrixAt path e index transpose = .ok m :=
      (bind_of_eq_ok (found _) _).trans whole
    exact ⟨_, bind_of_eq_ok got _, one same⟩
  | matricesAt index transpose =>
    obtain ⟨ms, all, same⟩ := exists_getMatrices typed type
      (fun k mem => fit _ (List.mem_map_of_mem mem)) "read_vector_of_matrices_at" transpose
    have got : a.readMatricesAt path e index transpose = .ok ms :=
      (bind_of_eq_ok (found _) _).trans all
    exact ⟨_, bind_of_eq_ok got _, same⟩

theorem readRecords_eq_ok (looked : ∀ operation, a.lookup path operation = .ok id)
    (rank : (a.dataset id).rank = 1) (records : (a.dataset id).type.scalar? = none) :
    a.readRecords path =
      .ok ((a.dataset id).full.cells.map (a.dataset id).cell) := by
  have checked : (a.dataset id).checkSelection "read_records" (a.dataset id).full = .ok () :=
    Dataset.checkSelection_eq_ok_iff.2 (a.dataset id).fits_full
  unfold readRecords
  simp only
  rw [bind_of_eq_ok (lookupRank_eq_ok (looked _) rank)]
  simp only [records, Option.isSome_none, Bool.false_eq_true, if_false]
  exact bind_of_eq_ok checked _

theorem readSlab_eq_ok (looked : ∀ operation, a.lookup path operation = .ok id)
    (fits : s.Fits (a.dataset id).dims) :
    a.readSlab path s = .ok (s.cells.map (a.dataset id).cell) := by
  have checked : (a.dataset id).checkSelection "read_slab" s = .ok () :=
    Dataset.checkSelection_eq_ok_iff.2 fits
  exact (bind_of_eq_ok (looked _) _).trans (bind_of_eq_ok checked _)

/-! ## Archives that can be reached

`Standing` is what holds of all of them: the container was reached, and what is remembered of a
path is what the path denotes. -/

/-- An archive that was opened, and with which anything was done since: its container was changed,
successfully or not, flushed or closed; paths were remembered with the datasets that they denote;
and others changed the disk. -/
inductive Reached : Archive → Prop
  | opened {disk : Disk} {config : StorageConfig} {stamp : Stamp} {a : Archive}
      (h : (openFile disk config stamp).result = .ok a) : Reached a
  | changed {a : Archive} (h : Reached a) (μ : Mutation) :
      Reached { a with mounted := Mutation.after a.mounted μ }
  | remembered {a : Archive} {path : Path} {id : DatasetId} {operation : String} (h : Reached a)
      (denotes : a.tree.openDataset path operation = .ok id) :
      Reached { a with handles := a.handles.insert path id }
  | flushed {a : Archive} (h : Reached a) :
      Reached { a with mounted := stateAfter (Container.flush a.mounted) }
  | closed {a : Archive} (h : Reached a) : Reached a.close
  | disturbed {a : Archive} (h : Reached a) (disk : Disk) :
      Reached { a with mounted := ⟨disk, a.mounted.container⟩ }

/-- An archive over a container that was reached, which is right about what paths denote. -/
structure Standing (a : Archive) : Prop where
  container : Container.Reached a.mounted
  handles : ∀ path id, a.handles.get? path = some id → a.tree.denoted? path = some id

theorem Standing.lookup_eq_ok (h : a.Standing) (denotes : a.tree.denoted? path = some id)
    (operation : String) : a.lookup path operation = .ok id := by
  rw [lookup_eq_of_handles h.handles, Tree.openDataset_eq, denotes]

end Archive

/-- Whatever comes of a change, links and datasets stay where they are. -/
theorem Mutation.keeps_after (m : Mounted) (μ : Mutation) :
    Tree.Keeps m.container.tree (after m μ).container.tree := by
  refine tree_after (Tree.keeps_of_nodes rfl) (fun r t _ => Tree.keeps_of_apply) ?_ μ
  intro id operation s values d' _ _
  exact Tree.keeps_of_nodes rfl

namespace Archive

variable {a : Archive} {path : Path} {id : DatasetId}

/-- A container with another disk or another tree that keeps what paths denote. -/
theorem Standing.step (h : a.Standing) {m : Mounted} (reached : Container.Reached m)
    (keeps : Tree.Keeps a.tree m.container.tree) : Standing { a with mounted := m } := by
  refine ⟨reached, ?_⟩
  intro path id kept
  exact keeps.denoted? (h.handles path id kept)

theorem Standing.changed (h : a.Standing) (μ : Mutation) :
    Standing { a with mounted := Mutation.after a.mounted μ } :=
  h.step (h.container.changed μ) (Mutation.keeps_after a.mounted μ)

theorem standing_of_openFile {disk : Disk} {config : StorageConfig} {stamp : Stamp}
    (h : (openFile disk config stamp).result = .ok a) : a.Standing := by
  refine good_of_openFile (fun a name value h => ?_) h fun c opened => ?_
  · have changed := h.changed (.setAttribute .root name value)
    change Standing { a with
      mounted := stateAfter (Container.setAttribute .root name value a.mounted) } at changed
    refine ends_onContainer.2 (ends_of_forall (fun _ m ran => ?_) fun _ _ _ => trivial)
    rwa [ran] at changed
  · exact ⟨.opened opened, fun path id kept => by cases kept⟩

theorem Reached.standing (reached : a.Reached) : a.Standing := by
  induction reached with
  | opened h => exact standing_of_openFile h
  | changed _ μ ih => exact ih.changed μ
  | remembered _ denotes ih =>
    refine ⟨ih.container, ?_⟩
    intro path id kept
    rcases Table.eq_or_get?_of_insert kept with ⟨rfl, rfl⟩ | old
    · exact Tree.denoted?_of_open denotes
    · exact ih.handles path id old
  | @flushed a _ ih =>
    refine ih.step ih.container.flushed ?_
    rw [Container.tree_flush]
    exact Tree.keeps_of_nodes rfl
  | closed _ ih =>
    refine ⟨ih.container.closed, ?_⟩
    intro path id kept
    cases kept
  | disturbed _ disk ih => exact ih.step (ih.container.disturbed disk) (Tree.keeps_of_nodes rfl)

/-- Every dataset of a container that was reached in any way has a fill and cells of its type, and
so has every dataset of an archive.  What a path denotes there can be read: by every reader of its
rank and element type that stays within the extents, as records if it holds records, and over any
selection within the extents; and what is read are the values of the cells, each of the dataset's
type. -/
theorem reads_of_reached :
    (∀ m : Mounted, Container.Reached m → ∀ d ∈ m.container.tree.datasets, d.Typed) ∧
    ∀ a : Archive, a.Reached → (∀ d ∈ a.tree.datasets, d.Typed) ∧
      ∀ path id, a.tree.denoted? path = some id →
        (∀ (e : ElementType) (read : TypedRead), (a.dataset id).type = .scalar e →
          (a.dataset id).rank = read.rank →
          (∀ s ∈ read.selections (a.dataset id), s.Fits (a.dataset id).dims) →
          ∃ values, read.run a path e = .ok values ∧ values.map e.toDatum =
            (read.selections (a.dataset id)).flatMap fun s => s.cells.map (a.dataset id).cell) ∧
        ((a.dataset id).type.scalar? = none → (a.dataset id).rank = 1 →
          a.readRecords path = .ok ((a.dataset id).full.cells.map (a.dataset id).cell)) ∧
        (∀ s : Selection, s.Fits (a.dataset id).dims →
          a.readSlab path s = .ok (s.cells.map (a.dataset id).cell)) ∧
        ∀ index, ((a.dataset id).cell index).conforms (a.dataset id).type := by
  refine ⟨fun m reached => reached.typed, fun a reached => ?_⟩
  have standing := reached.standing
  have typed : a.tree.Typed := standing.container.typed
  refine ⟨typed, fun path id denotes => ?_⟩
  have known := standing.container.rooted.toSound.lt_of_denoted? denotes
  have here : (a.dataset id).Typed := typed.dataset known
  have looked := standing.lookup_eq_ok denotes
  refine ⟨fun e read type rank fit => ?_, fun records rank => ?_, fun s fits => ?_, here.cell⟩
  · exact run_eq_ok looked here type read rank fit
  · exact readRecords_eq_ok looked rank records
  · exact readSlab_eq_ok looked fits

/-- Make a column of numbers and one of records, and write into the first. -/
def makeColumns : List Mutation :=
  [.createDataset (.ofText "/v") (.scalar .int32) [3] false 3 (.int 7),
    .write 0 "write_slab" ⟨[1], [1]⟩ [.int 5],
    .createDataset (.ofText "/r") (.compound [⟨"n", .int64, some 2⟩]) [2] false 2
      (.record [.array [.int 0, .int 0]])]

/-- An archive with these columns that was closed and opened again. -/
def reopenedColumns : Option Archive := do
  let a ← (openFile default {} default).result.toOption
  let closed := Archive.close { a with mounted := Mutation.afterAll a.mounted makeColumns }
  (openFile closed.mounted.disk { mode := .append } default).result.toOption

theorem reached_of_reopenedColumns (h : reopenedColumns = some a) : a.Reached := by
  unfold reopenedColumns at h
  obtain ⟨_, -, opened⟩ := Option.bind_eq_some_iff.1 h
  exact .opened (eq_ok_of_toOption opened)

theorem reads_of_reached_of_columns : ∃ a, reopenedColumns = some a ∧ a.Reached ∧
    (∀ d ∈ a.tree.datasets, d.Typed) ∧
    (∃ values, TypedRead.vector.run a (.ofText "/v") .int32 = .ok values ∧
      values.map (ElementType.toDatum .int32) = [.int 7, .int 5, .int 7]) ∧
    a.readRecords (.ofText "/r") =
      .ok [.record [.array [.int 0, .int 0]], .record [.array [.int 0, .int 0]]] ∧
    a.readSlab (.ofText "/v") ⟨[1], [2]⟩ = .ok [.int 5, .int 7] := by
  have ready : reopenedColumns.any (fun a =>
      a.tree.denoted? (.ofText "/v") = some 0 ∧ a.tree.denoted? (.ofText "/r") = some 1 ∧
      (a.dataset 0).type = .scalar .int32 ∧ (a.dataset 0).dims = [3] ∧
      (a.dataset 1).type.scalar? = none ∧ (a.dataset 1).dims = [2] ∧
      (a.dataset 0).full.cells.map (a.dataset 0).cell = [.int 7, .int 5, .int 7] ∧
      (a.dataset 1).full.cells.map (a.dataset 1).cell =
        [.record [.array [.int 0, .int 0]], .record [.array [.int 0, .int 0]]] ∧
      (Selection.mk [1] [2]).cells.map (a.dataset 0).cell = [.int 5, .int 7]) := by
    decide +kernel
  obtain ⟨a, made, ready⟩ := (Option.any_eq_true ..).1 ready
  obtain ⟨column, records, type, dims, fields, length, whole, each, part⟩ := of_decide_eq_true ready
  have reached := reached_of_reopenedColumns made
  have known := reads_of_reached.2 a reached
  obtain ⟨typed, -, slab, -⟩ := known.2 _ _ column
  obtain ⟨-, tuples, -⟩ := known.2 _ _ records
  refine ⟨a, made, reached, reads_of_reached.1 _ reached.standing.container, ?_, ?_, ?_⟩
  · obtain ⟨values, read, same⟩ := typed .int32 .vector type (congrArg List.length dims)
      fun s mem => List.mem_singleton.1 mem ▸ (a.dataset 0).fits_full
    refine ⟨values, read, ?_⟩
    rw [same, TypedRead.selections, List.flatMap_singleton, whole]
  · rw [tuples fields (congrArg List.length length), each]
  · have fits : (Selection.mk [1] [2]).Fits (a.dataset 0).dims := by
      rw [dims]
      exact ⟨rfl, rfl, .cons (by decide) .nil⟩
    rw [slab _ fits, part]

end Archive
end StudyArchive
