import StudyArchive.Proofs.Archive.Blocks
import StudyArchive.Proofs.Archive.Touched
/-
# Whole datasets

A value that is stored at once gets a dataset of just its size and is written over all of it
(`Archive.Stored.ends_write`).  The reader of its rank gets it back from there
(`Archive.readVector_eq_ok`, `Archive.readMatrix_eq_ok`).
-/

namespace StudyArchive

open Dataset

/-- A dataset of elements that holds given data, in row-major order. -/
structure Dataset.Holds (d : Dataset) (e : ElementType) (dims : List Nat) (data : List Datum) :
    Prop where
  type : d.type = .scalar e
  dims : d.dims = dims
  whole : d.block [] = data

namespace Dataset

variable {d d' : Dataset} {e : ElementType} {dims : List Nat} {data : List Datum}

theorem Holds.sameData (h : d.Holds e dims data) (same : d.SameData d') :
    d'.Holds e dims data where
  type := same.type.trans h.type
  dims := same.dims.trans h.dims
  whole := by
    rw [← h.whole, block, block, same.dims]
    exact List.map_congr_left fun rest _ => same.cells rest

/-- What is said of a dataset is none of its data. -/
theorem Holds.redescribed (h : d.Holds e dims data) (same : d.Redescribed d') :
    d'.Holds e dims data := h.sameData same.sameData

theorem block_eq_nil (none : volume d.dims = 0) : d.block [] = [] :=
  List.eq_nil_of_length_eq_zero ((length_block d []).trans none)

end Dataset

namespace Archive

variable {a a' : Archive} {path : Path} {id : DatasetId} {e : ElementType} {dims : List Nat}
  {data : List Datum}

/-! ## Writing -/

section
variable (coherent : a.Coherent) (denotes : a.tree.denoted? path = some id)

include coherent denotes

theorem ends_writeScalar_at (v : e.Value) :
    Ends (writeScalar path e v) a (fun _ => PutAt a path id [] [e.toDatum v])
      (fun _ _ => True) := by
  refine ends_find_denoted coherent denotes fun _ rank => ?_
  have dims : (a.dataset id).dims = [] := List.eq_nil_of_length_eq_zero rank
  have block : Selection.ofCell [] = .ofBlock [] ((a.dataset id).dims.drop 0) := by
    rw [dims]
    rfl
  exact ends_put_at coherent.ready (coherent.ready.sound.lt_of_denoted? denotes) path block

theorem ends_writeVector_at (values : List e.Value) :
    Ends (writeVector path e values) a (fun _ => PutAt a path id [] (values.map e.toDatum))
      (fun _ _ => True) := by
  refine ends_find_denoted coherent denotes fun _ rank => ?_
  obtain ⟨n, dims⟩ := List.length_eq_one_iff.1 rank
  refine ends_bind.2 (ends_get.2 (ends_ite.2 ⟨fun extent => ?_, fun _ =>
    ends_bind.2 (ends_throw.2 trivial)⟩))
  have block : Selection.mk [0] [values.length] = .ofBlock [] ((a.dataset id).dims.drop 0) := by
    rw [extent, dims]
    rfl
  exact ends_put_at coherent.ready (coherent.ready.sound.lt_of_denoted? denotes) path block

theorem ends_writeMatrix_at (m : Matrix e.Value) (transpose : Bool) :
    Ends (writeMatrix path e m transpose) a
      (fun _ => PutAt a path id [] ((TypedRead.unfolded transpose m).map e.toDatum))
      (fun _ _ => True) := by
  refine ends_find_denoted coherent denotes fun _ _ => ?_
  have known := coherent.ready.sound.lt_of_denoted? denotes
  exact (ends_putMatrix_at coherent.ready known path).imp fun _ _ put => put.2

end

/-! ## Storing

A dataset that was just made has the extents of the value that it is made for, so the check of the
shapes lets the value pass. -/

/-- An archive with a new dataset that holds given data and has no scales. -/
structure Stored (a : Archive) (path : Path) (e : ElementType) (dims : List Nat)
    (data : List Datum) (a' : Archive) : Prop extends TouchedAt (· = path) a a' where
  here : ∃ d, a'.tree.at? path = some d ∧ d.Holds e dims data ∧ ∀ k, d.scalesAt k = []

theorem ends_createDataset_stored (coherent : a.Coherent) {extensible : Bool} {hint : Option Nat}
    {fill : Option Datum} :
    Ends (createDataset path (.scalar e) dims extensible hint fill) a
      (fun _ a' => ∃ data, Stored a path e dims data a') (fun _ _ => True) := by
  refine (ends_createDataset_made coherent).mono ?_ fun _ _ _ => trivial
  rintro _ a' ⟨coherent', chunkRows, made⟩
  exact ⟨_, ⟨coherent', made.touched⟩, _, (made.at_ path).trans (if_pos rfl), ⟨rfl, rfl, rfl⟩,
    fun k => scalesAt_new ..⟩

namespace Stored

variable {b : Archive} {old : List Datum} (h : Stored a path e dims old b)

include h

theorem ends_write {next : Action Unit} (confined : Confined (fun _ => True) next)
    (writes : ∀ id, b.tree.denoted? path = some id →
      Ends next b (fun _ => PutAt b path id [] data) (fun _ _ => True)) :
    Ends next b (fun _ => Stored a path e dims data) (fun _ _ => True) := by
  obtain ⟨d, found, holds, unscaled⟩ := h.here
  obtain ⟨id, node, there⟩ := Tree.at?_eq_some.1 found
  have dataset : b.dataset id = d := Tree.dataset_of_getElem? there
  refine (confined.ends_coherent h.coherent (writes id (Tree.denoted?_of_node node))).mono ?_
    fun _ _ _ => trivial
  rintro _ a' ⟨coherent, d', wrote, altered⟩
  have turned := altered.turned h.coherent.ready.sound node
  rw [dataset] at wrote
  refine ⟨⟨coherent, h.tree.trans turned.touched⟩, d', turned.here,
    ⟨wrote.alike.type.trans holds.type, wrote.dims.trans holds.dims, wrote.here⟩, fun k => ?_⟩
  rw [scalesAt, wrote.scales]
  exact unscaled k

theorem empty (none : volume dims = 0) : Stored a path e dims [] b := by
  obtain ⟨d, found, holds, unscaled⟩ := h.here
  refine ⟨h.toTouchedAt, d, found, ⟨holds.type, holds.dims, block_eq_nil ?_⟩, unscaled⟩
  rw [holds.dims, none]

end Stored

/-! ## Reading -/

section
variable (coherent : a.Coherent) (denotes : a.tree.denoted? path = some id)

include coherent denotes

theorem readScalar_eq_ok {v : e.Value} (holds : (a.dataset id).Holds e [] [e.toDatum v]) :
    a.readScalar path e = .ok v := by
  have found := typed_eq_ok (coherent.lookup_eq_ok denotes)
    (show (a.dataset id).rank = 0 by rw [rank, holds.dims]; rfl) holds.type
  have read : (a.dataset id).read "read_scalar" ⟨[], []⟩ = .ok ([v].map e.toDatum) :=
    (read_block .nil holds.dims : (a.dataset id).read _ (.ofBlock [] []) = _).trans
      (congrArg Except.ok holds.whole)
  exact (bind_of_eq_ok (found _) _).trans
    ((bind_of_eq_ok read _).trans (bind_of_eq_ok (elements_map_toDatum _ _ [v]) _))

theorem readVector_eq_ok {values : List e.Value}
    (holds : (a.dataset id).Holds e [values.length] (values.map e.toDatum)) :
    a.readVector path e = .ok values := by
  have found := typed_eq_ok (coherent.lookup_eq_ok denotes)
    (show (a.dataset id).rank = 1 by rw [rank, holds.dims]; rfl) holds.type
  have read : (a.dataset id).read "read_vector" (a.dataset id).full =
      .ok (values.map e.toDatum) :=
    (read_block .nil rfl : (a.dataset id).read _ (.ofBlock [] _) = _).trans
      (congrArg Except.ok holds.whole)
  exact (bind_of_eq_ok (found _) _).trans
    ((bind_of_eq_ok read _).trans (elements_map_toDatum _ _ values))

theorem readMatrix_eq_ok {m : Matrix e.Value} {transpose : Bool}
    (holds : (a.dataset id).Holds e (diskShape m transpose)
      ((TypedRead.unfolded transpose m).map e.toDatum)) :
    a.readMatrix path e transpose = .ok m := by
  have found := typed_eq_ok (coherent.lookup_eq_ok denotes)
    (show (a.dataset id).rank = 2 by rw [rank, holds.dims]; cases transpose <;> rfl) holds.type
  exact (bind_of_eq_ok (found _) _).trans (getMatrix_eq_ok .nil holds.dims holds.whole _)

end

end Archive
end StudyArchive
