import StudyArchive.Proofs.Archive.Calls
import StudyArchive.Proofs.Archive.Footprint
/-
# What calls work on

A call that writes or reserves rows does so in the dataset that its path denotes, and all other
calls write no data at all.  So whatever is asked of an archive, and whatever comes of it, a dataset
has its extents and cells afterwards unless it was the target of the call (`Archive.Call.leaves`).
-/

namespace StudyArchive

/-! ## Changes of no data -/

namespace Mutation

open Container

variable {m : Mounted} {μ : Mutation}

/-- What is true of the tree from before and of the one that a change asks for is true of the one
that it leaves, whatever comes of it. -/
theorem ends_run_asked {P : Tree → Prop} (notWrite : μ.isWrite = false)
    (here : P m.container.tree) (asked : ∀ t, μ.asked m.container = .ok t → P t) :
    Ends μ.run m (fun _ m' => P m'.container.tree) (fun _ m' => P m'.container.tree) :=
  ends_run_of_commit notWrite here (fun _ _ => here) fun _ _ same =>
    ends_commit_tree here fun t applied => asked t (same.trans applied)

/-- Changes that make a group or a link, or describe something. -/
def isAside : Mutation → Bool
  | createGroup _ | setAttribute .. | createLink .. => true
  | _ => false

/-- The tree that such a change asks for has all datasets with their extents and cells. -/
theorem sameCells_of_asked {c : Container} {t : Tree} (aside : μ.isAside)
    (h : μ.asked c = .ok t) {id : DatasetId} (known : id < c.tree.datasets.length) :
    Dataset.SameCells (c.tree.dataset id) (t.dataset id) := by
  have kept {t : Tree} (same : t.datasets = c.tree.datasets) :
      Dataset.SameCells (c.tree.dataset id) (t.dataset id) := by
    rw [Tree.dataset_of_getElem? (t := t) (same ▸ Tree.getElem?_of_lt known)]
    exact .refl _
  cases μ with
  | createGroup path => exact kept (Tree.grown_of_ensureGroup h).datasets
  | createLink link target =>
    obtain ⟨-, grown, -, groups, rfl⟩ := Tree.createLink_eq_ok h
    exact kept groups.datasets
  | setAttribute path name value =>
    simp only [asked] at h
    split at h
    · rcases Tree.setAttribute_eq_ok h with ⟨_, -, rfl⟩ | ⟨other, -, rfl⟩
      · exact kept rfl
      · by_cases same : other = id
        · subst same
          rw [Tree.dataset_of_getElem? (t := c.tree.updateDataset other _)
            (List.getElem?_set_self known)]
          exact ⟨rfl, rfl, fun _ => rfl⟩
        · rw [Tree.dataset_of_getElem? (t := c.tree.updateDataset other _)
            ((List.getElem?_set_ne same).trans (Tree.getElem?_of_lt known))]
          exact .refl _
    · cases h
  | _ => cases aside

end Mutation

namespace Archive

variable {a a' : Archive} {id : DatasetId}

def TypedWrite.path : TypedWrite → Path
  | appendScalar path _ _ | appendVector path _ _ | appendMatrix path _ _ _
  | appendMatrices path _ _ _ | setScalar path _ _ _ | setVector path _ _ _ _
  | setMatrix path _ _ _ _ | setMatrices path _ _ _ _ | writeScalar path _ _
  | writeVector path _ _ | writeMatrix path _ _ _ | setRecord path _ _ | writeRecords path _ => path

/-- The path whose dataset gets rows or data, if any does. -/
def Call.target? : Call → Option Path
  | typed w => some w.path
  | reserveRow path | writeSlab path _ _ => some path
  | _ => none

/-- Whatever comes of making a group or a link, or of describing: the archive is in use, and what is
true of the tree from before and of the one that is asked for is true of the one that is left. -/
theorem ends_asked {P : Tree → Prop} (coherent : a.Coherent) {μ : Mutation} (aside : μ.isAside)
    (here : P a.tree) (asked : ∀ t, μ.asked a.container = .ok t → P t) :
    Ends (onContainer μ.run) a (fun _ a' => a'.Coherent ∧ P a'.tree)
      (fun _ a' => a'.Coherent ∧ P a'.tree) := by
  have aimed : μ.isAimed a.tree := by
    cases μ <;> first | rfl | cases aside
  have notWrite : μ.isWrite = false := by
    cases μ <;> first | rfl | cases aside
  have kept {m : Mounted} (h : (m.Ready ∧ Tree.Keeps a.tree m.container.tree) ∧
      P m.container.tree) : Coherent { a with mounted := m } ∧ P m.container.tree :=
    ⟨⟨h.1.1, fun q id handled => h.1.2.denoted? (coherent.handles q id handled)⟩, h.2⟩
  exact ends_onContainer.2 (((Mutation.ends_run_keeps coherent.ready aimed).and
    (Mutation.ends_run_asked notWrite here asked)).mono (fun _ _ => kept) fun _ _ => kept)

theorem TypedWrite.confined {S : Path → Prop} (w : TypedWrite) (place : S w.path) :
    Confined S w.run := by
  cases w with
  | appendScalar path e v => exact confined_appendScalar place
  | appendVector path e values => exact confined_appendVector place
  | appendMatrix path e m transpose => exact confined_appendMatrix place
  | appendMatrices path e matrices transpose => exact confined_appendMatrices place
  | setScalar path e v index => exact confined_setScalar place
  | setVector path e values index row => exact confined_setVector place
  | setMatrix path e m index transpose => exact confined_setMatrix place
  | setMatrices path e matrices index transpose => exact confined_setMatrices place
  | writeScalar path e v => exact confined_writeScalar place
  | writeVector path e values => exact confined_writeVector place
  | writeMatrix path e m transpose => exact confined_writeMatrix place
  | setRecord path v index => exact confined_setRecord place
  | writeRecords path values => exact confined_writeRecords place

/-- An archive in which a dataset has its extents and cells. -/
structure Leaves (id : DatasetId) (a a' : Archive) : Prop where
  coherent : a'.Coherent
  same : Dataset.SameCells (a.dataset id) (a'.dataset id)

theorem ends_flush_leaves (coherent : a.Coherent) :
    Ends flush a (fun _ => Leaves id a) (fun _ => Leaves id a) := by
  obtain ⟨w, isOpen⟩ := coherent.ready.isOpen
  refine ends_onContainer.2 (ends_of_forall (fun _ m flushed => ?_) fun _ m failed => ?_)
  · simp only [Container.flush, isOpen, EStateM.Result.ok.injEq] at flushed
    obtain ⟨-, rfl⟩ := flushed
    exact ⟨⟨⟨coherent.ready.sound, _, rfl⟩, coherent.handles⟩, .refl _⟩
  · simp only [Container.flush, isOpen] at failed
    cases failed

section
variable (coherent : a.Coherent) (known : id < a.tree.datasets.length)

include coherent known

/-- Making groups and links, and describing, leaves every dataset. -/
theorem ends_aside {μ : Mutation} (aside : μ.isAside) :
    Ends (onContainer μ.run) a (fun _ => Leaves id a) (fun _ => Leaves id a) := by
  have same := ends_asked (P := fun t => Dataset.SameCells (a.dataset id) (t.dataset id)) coherent
    aside (.refl _) fun t asked => Mutation.sameCells_of_asked aside asked known
  exact same.mono (fun _ _ h => ⟨h.1, h.2⟩) fun _ _ h => ⟨h.1, h.2⟩

/-- Whatever comes of a call, it leaves every dataset but its target. -/
theorem Call.leaves (c : Call) (apart : ∀ path, c.target? = some path →
    a.tree.denoted? path ≠ some id) :
    Ends c.run a (fun _ => Leaves id a) (fun _ => Leaves id a) := by
  have spared {α : Type} {act : Action α} (confined : Confined (c.target? = some ·) act) :
      Ends act a (fun _ => Leaves id a) (fun _ => Leaves id a) :=
    (confined a coherent).mono (fun _ _ h => ⟨h.coherent, h.same id known apart⟩)
      fun _ _ h => ⟨h.coherent, h.same id known apart⟩
  cases c with
  | createEmptyOf path type dims hint fill => exact spared confined_createEmptyOf
  | createFixed path e dims fill => exact spared confined_createDataset
  | createCompound path dims fields => exact spared confined_createCompound
  | createGroup path => exact ends_aside coherent known (μ := .createGroup path) rfl
  | createLink link target => exact ends_aside coherent known (μ := .createLink link target) rfl
  | attachScale dataset scale label axis => exact spared confined_attachScale
  | setAttribute path name value =>
    exact ends_aside coherent known (μ := .setAttribute path name value) rfl
  | typed w => exact spared (w.confined rfl)
  | reserveRow path => exact ends_map.2 (spared (confined_reserveRow rfl))
  | writeSlab path s values => exact spared (confined_writeSlab (S := (some path = some ·)) rfl)
  | flush => exact ends_flush_leaves coherent

end

end Archive
end StudyArchive
