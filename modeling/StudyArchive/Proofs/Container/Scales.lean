import StudyArchive.Proofs.Archive.Passage
import StudyArchive.Proofs.Container.Datasets
import StudyArchive.Proofs.Container.Records
/-
# Scales that stay

Records attach scales, and none takes one away: whatever happens to a tree, the scales of an axis of
a dataset stay the first ones there, in their order (`Tree.KeepsScales`).
-/

namespace StudyArchive

/-- A tree with the datasets of another one, on whose axes scales may have been added at the end. -/
def Tree.KeepsScales (t t' : Tree) : Prop :=
  ∀ q d, t.at? q = some d → ∃ d', t'.at? q = some d' ∧ ∀ k, d.scalesAt k <+: d'.scalesAt k

namespace Tree

variable {t t' t'' : Tree} {file : String} {r : Record} {id : DatasetId} {d : Dataset}

theorem KeepsScales.refl (t : Tree) : t.KeepsScales t :=
  fun _ d found => ⟨d, found, fun _ => List.prefix_rfl⟩

theorem KeepsScales.trans (h : t.KeepsScales t') (h' : t'.KeepsScales t'') : t.KeepsScales t'' := by
  intro q d found
  obtain ⟨d', found', front⟩ := h q d found
  obtain ⟨d'', found'', front'⟩ := h' q d' found'
  exact ⟨d'', found'', fun k => (front k).trans (front' k)⟩

/-- It is enough to look at the datasets by their identifiers. -/
theorem Sound.keepsScales (sound : t.Sound) (sound' : t'.Sound)
    (each : ∀ (id : DatasetId) d, t.datasets[id]? = some d → ∃ d', t'.datasets[id]? = some d' ∧
      d'.path = d.path ∧ ∀ k, d.scalesAt k <+: d'.scalesAt k) : t.KeepsScales t' := by
  intro q d found
  have named := sound.path_of_at? found
  obtain ⟨id, -, there⟩ := at?_eq_some.1 found
  obtain ⟨d', there', path, front⟩ := each id d there
  have node := sound'.placed there'
  rw [path, named] at node
  exact ⟨d', (at?_of_node node).trans there', front⟩

/-- A change of one dataset leaves the others' scales alone. -/
theorem Sound.keepsScales_updateDataset (sound : t.Sound)
    (sound' : (t.updateDataset id d).Sound) (path : d.path = (t.dataset id).path)
    (front : ∀ k, (t.dataset id).scalesAt k <+: d.scalesAt k) :
    t.KeepsScales (t.updateDataset id d) := by
  refine sound.keepsScales sound' fun other d₁ there => ?_
  have known := lt_of_getElem? there
  by_cases same : id = other
  · subst same
    rw [dataset_of_getElem? there] at path front
    exact ⟨d, List.getElem?_set_self known, path, front⟩
  · exact ⟨d₁, (List.getElem?_set_ne same).trans there, rfl, fun _ => List.prefix_rfl⟩

theorem Sound.keepsScales_of_apply (sound : t.Sound) (h : t.apply file r = .ok t') :
    t.KeepsScales t' := by
  have sound' := sound.apply h
  have datasets (more : List Dataset) (eq : t'.datasets = t.datasets ++ more) :
      t.KeepsScales t' := by
    refine sound.keepsScales sound' fun id d there => ⟨d, ?_, rfl, fun _ => List.prefix_rfl⟩
    rw [eq, List.getElem?_append_left (lt_of_getElem? there), there]
  rcases datasets_of_apply h with same | ⟨_, _, _, _, _, _, -, more⟩ | ⟨id, d', becomes, rfl⟩
  · exact datasets [] (by rw [same, List.append_nil])
  · exact datasets _ more
  · exact sound.keepsScales_updateDataset sound' becomes.alike.path becomes.scalesAt_prefix

end Tree

theorem Container.Recorded.keepsScales {m m' : Mounted} (h : Recorded m m') (ready : m.Ready) :
    m.container.tree.KeepsScales m'.container.tree ∧ m'.Ready := by
  rcases h with rfl | ⟨r, -, took⟩
  · exact ⟨.refl _, ready⟩
  · exact ⟨ready.sound.keepsScales_of_apply took.applied, ready_of_took ready took⟩

theorem Archive.Passes.keepsScales {a b : Archive} {good : Archive → Prop} (way : Passes good a b)
    (ready : a.mounted.Ready) : Passes (fun c => good c ∧ a.tree.KeepsScales c.tree) a b := by
  suffices both : Passes (fun c => good c ∧ a.tree.KeepsScales c.tree) a b ∧
      a.tree.KeepsScales b.tree ∧ b.mounted.Ready from both.1
  induction way with
  | refl => exact ⟨.refl, .refl _, ready⟩
  | step _ recorded there ih =>
    obtain ⟨way, keeps, ready⟩ := ih
    obtain ⟨more, ready'⟩ := recorded.keepsScales ready
    exact ⟨.step way recorded ⟨there, keeps.trans more⟩, keeps.trans more, ready'⟩

end StudyArchive
