import StudyArchive.Proofs.Archive.Touched
/-
# Labels of scales

A label of an axis stands for a scale if just the scales with that label lie at its path
(`Dataset.Means`).  Attaching another scale keeps this, if the two do not mix label and path
(`Dataset.Means.attachScale`); and then whoever looks the label up gets the scale
(`Archive.scaleByLabel_eq_ok`).
-/

namespace StudyArchive

open Dataset

/-- On an axis of a dataset a label stands for the scale of one path. -/
def Dataset.Means (d : Dataset) (axis : Nat) (label : String) (own : Path) : Prop :=
  ∀ o ∈ d.scalesAt axis, o.scale = own ↔ o.label = label

/-- A dataset with a scale on an axis. -/
def Dataset.Bears (d : Dataset) (axis : Nat) (own : Path) : Prop :=
  ∃ o ∈ d.scalesAt axis, o.scale = own

namespace Dataset

variable {d d' : Dataset} {axis : Nat} {s : AttachedScale}

theorem Means.redescribed {label : String} {own : Path} (means : d.Means axis label own)
    (same : d.Redescribed d') : d'.Means axis label own :=
  fun o mem => means o (same.scalesAt axis ▸ mem)

theorem Bears.redescribed {own : Path} (bears : d.Bears axis own) (same : d.Redescribed d') :
    d'.Bears axis own := by
  obtain ⟨o, mem, own⟩ := bears
  exact ⟨o, (same.scalesAt axis).symm ▸ mem, own⟩

theorem bears_of_attachScale (h : d.attachScale axis s = .ok d') : d'.Bears axis s.scale := by
  unfold attachScale at h
  split at h
  · cases h
  · next inside =>
    split at h
    · next there =>
      cases h
      obtain ⟨o, mem, same⟩ := List.any_eq_true.1 there
      exact ⟨o, mem, of_decide_eq_true same⟩
    · cases h
      have found := List.getElem?_eq_getElem (Nat.lt_of_not_le inside)
      refine ⟨s, ?_, rfl⟩
      simp [scalesAt, found]

theorem Bears.attachScale {k : Nat} {own : Path} (bears : d.Bears k own)
    (h : d.attachScale axis s = .ok d') : d'.Bears k own := by
  obtain ⟨o, mem, same⟩ := bears
  refine ⟨o, ?_, same⟩
  rcases scalesAt_attached h k with eq | ⟨eq, -⟩
  · exact eq ▸ mem
  · exact eq ▸ List.mem_append_left _ mem

/-- A label goes on to stand for one scale if the scale that is attached agrees. -/
theorem Means.attachScale {k : Nat} {label : String} {own : Path} (means : d.Means k label own)
    (h : d.attachScale axis s = .ok d') (agrees : axis = k → (s.scale = own ↔ s.label = label)) :
    d'.Means k label own := by
  intro o mem
  by_cases here : axis = k
  · rcases scalesAt_attached h k with eq | ⟨eq, -⟩ <;> rw [eq] at mem
    · exact means o mem
    · rcases List.mem_append.1 mem with old | new
      · exact means o old
      · rw [List.mem_singleton.1 new]
        exact agrees here
  · rw [(scalesAt_of_attachScale h).1 k (Ne.symm here)] at mem
    exact means o mem

end Dataset

namespace Archive

variable {a : Archive} {path own : Path} {id : DatasetId} {axis : Nat} {label : String}

/-- A label is looked up from the front of an axis that is there. -/
theorem scaleByLabel_of_inside (coherent : a.Coherent) (denotes : a.tree.denoted? path = some id)
    (inside : axis < (a.dataset id).rank) (label : String) :
    a.scaleByLabel path axis label =
      match ((a.dataset id).scalesAt axis).find? (·.label = label) with
      | some s => .ok s.scale
      | none => .error (.notFound (path.join label) "scale_by_label") := by
  have scales : a.scales path axis = .ok ((a.dataset id).scalesAt axis) := by
    unfold scales
    rw [bind_of_eq_ok (coherent.lookup_eq_ok denotes "scales"), if_neg (Nat.not_le_of_lt inside)]
    rfl
  unfold scaleByLabel
  rw [bind_of_eq_ok scales]
  cases ((a.dataset id).scalesAt axis).find? (·.label = label) <;> rfl

/-- A scale is found by a label that stands for it. -/
theorem scaleByLabel_eq_ok {d : Dataset} (coherent : a.Coherent)
    (found : a.tree.at? path = some d) (means : d.Means axis label own)
    (bears : d.Bears axis own) : a.scaleByLabel path axis label = .ok own := by
  obtain ⟨id, node, there⟩ := Tree.at?_eq_some.1 found
  have dataset : a.dataset id = d := Tree.dataset_of_getElem? there
  obtain ⟨o, mem, same⟩ := bears
  have inside : axis < d.rank := by
    refine Nat.lt_of_not_le fun beyond => ?_
    rw [scalesAt, List.getElem?_eq_none (by
      rw [(coherent.ready.sound.each there).scales_length]
      exact beyond)] at mem
    cases mem
  have labelled := (means o mem).1 same
  obtain ⟨first, sought⟩ : ∃ first, (d.scalesAt axis).find? (·.label = label) = some first := by
    refine Option.isSome_iff_exists.1 (List.find?_isSome.2 ⟨o, mem, ?_⟩)
    exact decide_eq_true labelled
  have first_labelled : first.label = label := by simpa using List.find?_some sought
  have own_path := (means first (List.mem_of_find?_eq_some sought)).2 first_labelled
  rw [scaleByLabel_of_inside coherent (Tree.denoted?_of_node node) (dataset ▸ inside), dataset,
    sought, ← own_path]

end Archive
end StudyArchive
