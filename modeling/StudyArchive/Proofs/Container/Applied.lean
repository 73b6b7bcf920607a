import StudyArchive.Proofs.Container.Links
import StudyArchive.Proofs.Dataset.Rows
import StudyArchive.Proofs.Datum.Conforming
/-
# What applying a record does

A dataset can be taken further in five ways (`Dataset.Becomes`), and none of them changes its path,
its type, its fill, the shape of its rows or whether it grows (`Dataset.Becomes.alike`).  A record
makes a group, a dataset or a link, or it describes a group, or it takes one dataset a step further;
and a scale is attached only if a dataset is where the record says that the scale is.

`Tree.Applied` lists this, with all that each of them asks for, and `Tree.applied_of_apply` finds it
from the record.  What records keep, of whatever kind it is, is shown by cases on it: the definition
of `Tree.apply` is opened here for that, and nowhere else.
-/

namespace StudyArchive

/-! ## Steps of a dataset

An inductive predicate with one case for each way to go further, so that whatever all of them keep
is shown by cases. -/

/-- What a dataset can become by one record. -/
inductive Dataset.Becomes (d : Dataset) : Dataset → Prop
  | extended {extent : Nat} {d' : Dataset} (h : d.extend extent = .ok d') : Becomes d d'
  | written {operation : String} {s : Selection} {values : List Datum} {d' : Dataset}
      (fit : ∀ v ∈ values, v.conforms d.type) (h : d.write operation s values = .ok d') :
      Becomes d d'
  | described (attributes : SortedMap String AttrValue) :
      Becomes d { d with attributes := attributes }
  | marked (name : String) : Becomes d (d.markScale name)
  | attached {axis : Nat} {s : AttachedScale} {d' : Dataset}
      (h : d.attachScale axis s = .ok d') : Becomes d d'

namespace Dataset.Becomes

variable {d d' : Dataset}

/-- Whatever it becomes, it is the same dataset. -/
theorem alike (h : d.Becomes d') : Alike d d' := by
  cases h with
  | extended h =>
    obtain ⟨old, tail, -, dims, -, rfl⟩ := extend_eq_ok h
    exact ⟨rfl, rfl, rfl, rfl, by rw [dims, List.tail_cons, List.tail_cons]⟩
  | written _ h => exact (alike_of_write h).1
  | described attributes => exact ⟨rfl, rfl, rfl, rfl, rfl⟩
  | marked name => exact (sameRows_markScale d name).alike
  | attached h => exact (sameRows_of_attachScale h).alike

/-- No scale of an axis goes, and new ones come last. -/
theorem scalesAt_prefix (h : d.Becomes d') (k : Nat) : d.scalesAt k <+: d'.scalesAt k := by
  cases h with
  | extended h =>
    obtain ⟨_, _, _, _, _, rfl⟩ := extend_eq_ok h
    exact List.prefix_rfl
  | @written _ s values _ _ h =>
    obtain ⟨-, -, rfl⟩ := write_eq_ok h
    obtain ⟨chunks, eq⟩ := setCells_eq d s.cells values
    rw [eq]
    exact List.prefix_rfl
  | described attributes => exact List.prefix_rfl
  | marked name => exact List.prefix_rfl
  | attached h =>
    obtain ⟨scales, -, rfl, front⟩ := attachScale_eq_ok h
    exact front k

theorem sound (h : d.Becomes d') (sound : d.Sound) : d'.Sound := by
  cases h with
  | extended h => exact sound.extend h
  | written _ h => exact sound.write h
  | described attributes => exact sound.setAttributes attributes
  | marked name => exact sound.markScale name
  | attached h => exact sound.attachScale h

end Dataset.Becomes

/-! ## Steps of a tree -/

namespace Tree

variable {t t' : Tree}

theorem openDataset_eq_ok {path : Path} {operation : String} {id : DatasetId}
    (h : t.openDataset path operation = .ok id) :
    ∃ target, t.nodes.get? target = some (.dataset id) := by
  unfold openDataset at h
  rw [resolveNode?_eq_bind] at h
  cases found : t.resolvePath? path with
  | none =>
    rw [found] at h
    cases h
  | some target =>
    rw [found, Option.bind_some] at h
    split at h
    · next node =>
      cases h
      exact ⟨target, node⟩
    · cases h

/-- The values of a payload are of the type that they were read as. -/
theorem conforms_of_payloadValues {file : String} {type : DataType} {s : Selection}
    {payload : Bytes} {values : List Datum} (h : payloadValues file type s payload = .ok values) :
    ∀ v ∈ values, v.conforms type := by
  unfold payloadValues at h
  split at h
  · next read =>
    cases h
    exact Reader.gives_times (Datum.gives_decode type) s.size _ _ _ read
  · cases h

/-- An attribute is set on a group or on a dataset. -/
theorem setAttribute_eq_ok {path : Path} {name : String} {value : AttrValue}
    (h : t.setAttribute path name value = .ok t') :
    (∃ attributes, t.nodes.get? path = some (.group attributes) ∧
      t' = t.putNode path (.group (attributes.insert name value))) ∨
    ∃ id, t.nodes.get? path = some (.dataset id) ∧ t' = t.updateDataset id
      { t.dataset id with attributes := (t.dataset id).attributes.insert name value } := by
  unfold setAttribute at h
  split at h
  · next attributes found =>
    cases h
    exact .inl ⟨attributes, found, rfl⟩
  · next id found =>
    cases h
    exact .inr ⟨id, found, rfl⟩
  · cases h

/-- The ways in which a record can be applied to a tree. -/
inductive Applied (t : Tree) : Record → Tree → Prop
  | grouped {path : Path} {t' : Tree} (made : t.ensureGroup path = .ok t') :
      Applied t (.createGroup path) t'
  | created {path : Path} {type : DataType} {dims : List Nat} {extensible : Bool}
      {chunkRows : Nat} {fill : Datum} {t' : Tree}
      (made : t.createDataset (.new path type dims extensible chunkRows fill) = .ok t') :
      Applied t (.createDataset path type dims extensible chunkRows fill) t'
  | described {path : Path} {name : String} {value : AttrValue}
      {attributes : SortedMap String AttrValue}
      (found : t.nodes.get? path = some (.group attributes)) :
      Applied t (.setAttribute path name value)
        (t.putNode path (.group (attributes.insert name value)))
  | changed {r : Record} {place : Path} {id : DatasetId} {d' : Dataset}
      (found : t.nodes.get? place = some (.dataset id)) (becomes : (t.dataset id).Becomes d')
      (scales : d'.scales = (t.dataset id).scales) : Applied t r (t.updateDataset id d')
  | attached {path scale place scalePlace : Path} {label : String} {axis : Nat}
      {id scaleId : DatasetId} {d' : Dataset}
      (found : t.nodes.get? place = some (.dataset id))
      (scaleFound : t.nodes.get? scalePlace = some (.dataset scaleId))
      (attached : (t.dataset id).attachScale axis ⟨(t.dataset scaleId).path, label⟩ = .ok d') :
      Applied t (.attachScale path scale label axis) (t.updateDataset id d')
  | linked {link target : Path} {t' : Tree} (made : t.createLink link target = .ok t') :
      Applied t (.softLink link target) t'

/-- A record that is applied is applied in one of these ways. -/
theorem applied_of_apply {file : String} {r : Record} (h : t.apply file r = .ok t') :
    t.Applied r t' := by
  cases r with
  | createGroup path => exact .grouped h
  | createDataset path type dims extensible chunkRows fill => exact .created h
  | extend path extent =>
    obtain ⟨id, opened, h⟩ := exists_of_bind_eq_ok h
    obtain ⟨d, grown, h⟩ := exists_of_bind_eq_ok h
    cases h
    obtain ⟨place, found⟩ := openDataset_eq_ok opened
    refine .changed found (.extended grown) ?_
    obtain ⟨_, _, _, _, _, rfl⟩ := Dataset.extend_eq_ok grown
    rfl
  | write path start count payload =>
    obtain ⟨id, opened, h⟩ := exists_of_bind_eq_ok h
    obtain ⟨values, read, h⟩ := exists_of_bind_eq_ok h
    obtain ⟨d, written, h⟩ := exists_of_bind_eq_ok h
    cases h
    obtain ⟨place, found⟩ := openDataset_eq_ok opened
    exact .changed found (.written (conforms_of_payloadValues read) written)
      (Dataset.scales_of_write written)
  | setAttribute path name value =>
    rcases setAttribute_eq_ok h with ⟨attributes, found, rfl⟩ | ⟨id, found, rfl⟩
    · exact .described found
    · exact .changed found (.described _) rfl
  | markScale path name =>
    obtain ⟨id, opened, h⟩ := exists_of_bind_eq_ok h
    cases h
    obtain ⟨place, found⟩ := openDataset_eq_ok opened
    exact .changed found (.marked name) rfl
  | attachScale path scale label axis =>
    obtain ⟨scaleId, scaleOpened, h⟩ := exists_of_bind_eq_ok h
    obtain ⟨id, opened, h⟩ := exists_of_bind_eq_ok h
    obtain ⟨d, attached, h⟩ := exists_of_bind_eq_ok h
    cases h
    obtain ⟨place, found⟩ := openDataset_eq_ok opened
    obtain ⟨scalePlace, scaleFound⟩ := openDataset_eq_ok scaleOpened
    exact .attached found scaleFound attached
  | softLink link target => exact .linked h

end Tree
end StudyArchive
