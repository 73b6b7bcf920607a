import StudyArchive.Proofs.Container.Sound
/-
# What a record does to the datasets

A record adds a dataset at the end of the list, or takes one dataset a step further, or leaves the
datasets alone (`Tree.datasets_of_apply`).  So the datasets of a tree are there after any record,
and each of them is the same dataset still, in whatever state (`Tree.retains_of_apply`).
-/

namespace StudyArchive

namespace Tree

variable {t t' : Tree}

/-- The datasets after a record: as they were, with a new one at the end, or with one that became
another state of itself. -/
theorem datasets_of_apply {file : String} {r : Record} (h : t.apply file r = .ok t') :
    t'.datasets = t.datasets ∨
    (∃ path type dims extensible chunkRows fill,
      r = .createDataset path type dims extensible chunkRows fill ∧
      t'.datasets = t.datasets ++ [.new path type dims extensible chunkRows fill]) ∨
    ∃ id d', (t.dataset id).Becomes d' ∧ t' = t.updateDataset id d' := by
  cases applied_of_apply h with
  | grouped made => exact .inl (grown_of_ensureGroup made).datasets
  | created made =>
    obtain ⟨-, -, grown, -, -, rfl⟩ := createDataset_eq_ok made
    exact .inr (.inl ⟨_, _, _, _, _, _, rfl, rfl⟩)
  | described found => exact .inl rfl
  | changed _ becomes => exact .inr (.inr ⟨_, _, becomes, rfl⟩)
  | attached _ _ attached => exact .inr (.inr ⟨_, _, .attached attached, rfl⟩)
  | linked made =>
    obtain ⟨-, grown, -, groups, rfl⟩ := createLink_eq_ok made
    exact .inl groups.datasets

/-- A tree with the datasets of another one, in whatever state, and maybe with more of them. -/
def Retains (t t' : Tree) : Prop :=
  ∀ id < t.datasets.length, id < t'.datasets.length ∧ Dataset.Alike (t.dataset id) (t'.dataset id)

theorem Retains.refl (t : Tree) : Retains t t := fun _ known => ⟨known, .refl _⟩

theorem retains_of_datasets (more : List Dataset) (h : t'.datasets = t.datasets ++ more) :
    Retains t t' := by
  intro id known
  have there : t'.datasets[id]? = some (t.dataset id) := by
    rw [h, List.getElem?_append_left known, getElem?_of_lt known]
  refine ⟨lt_of_getElem? there, ?_⟩
  rw [dataset_of_getElem? there]
  exact .refl _

theorem retains_updateDataset {id : DatasetId} {d' : Dataset}
    (alike : Dataset.Alike (t.dataset id) d') : Retains t (t.updateDataset id d') := by
  intro other known
  have length : (t.updateDataset id d').datasets.length = t.datasets.length := List.length_set
  refine ⟨length ▸ known, ?_⟩
  by_cases same : id = other
  · subst same
    rw [dataset_of_getElem? (t := t.updateDataset id d') (List.getElem?_set_self known)]
    exact alike
  · rw [dataset_of_getElem? (t := t.updateDataset id d')
      ((List.getElem?_set_ne same).trans (getElem?_of_lt known))]
    exact .refl _

theorem retains_of_apply {file : String} {r : Record} (h : t.apply file r = .ok t') :
    Retains t t' := by
  rcases datasets_of_apply h with same | ⟨_, _, _, _, _, _, -, more⟩ | ⟨id, d', becomes, rfl⟩
  · exact retains_of_datasets [] (by rw [same, List.append_nil])
  · exact retains_of_datasets _ more
  · exact retains_updateDataset becomes.alike

end Tree
end StudyArchive
