import StudyArchive.Proofs.Container.Applied
import StudyArchive.Proofs.Path
/-
# Sound trees

The namespace of a tree and its list of datasets agree: the node at a dataset's own path names the
dataset, and every node that is a dataset's names one with that path.  So an identifier and a path
lead to the same dataset, which is why a record may say the path where a live change had the
identifier.  `Tree.Sound.apply` is the step: whatever record is applied, the tree stays sound.
-/

namespace StudyArchive.Tree

variable {t t' : Tree}

/-- The namespace and the datasets agree, and every dataset is sound. -/
structure Sound (t : Tree) : Prop where
  placed : ∀ {id : DatasetId} {d : Dataset}, t.datasets[id]? = some d →
    t.nodes.get? d.path = some (.dataset id)
  named : ∀ {path id}, t.nodes.get? path = some (.dataset id) →
    ∃ d, t.datasets[id]? = some d ∧ d.path = path
  each : ∀ {id : DatasetId} {d : Dataset}, t.datasets[id]? = some d → d.Sound

theorem getElem?_of_lt {id : DatasetId} (h : id < t.datasets.length) :
    t.datasets[id]? = some (t.dataset id) := by
  simp [dataset, h]

theorem dataset_of_getElem? {id : DatasetId} {d : Dataset} (h : t.datasets[id]? = some d) :
    t.dataset id = d := by
  simp [dataset, h]

theorem lt_of_getElem? {id : DatasetId} {d : Dataset} (h : t.datasets[id]? = some d) :
    id < t.datasets.length := (List.getElem?_eq_some_iff.1 h).1

namespace Sound

theorem openDataset (sound : t.Sound) {id : DatasetId} (known : id < t.datasets.length)
    (operation : String) : t.openDataset (t.dataset id).path operation = .ok id := by
  have here := sound.placed (getElem?_of_lt known)
  unfold Tree.openDataset
  rw [resolveNode?_of_get? here (by simp)]

theorem lt_of_node (sound : t.Sound) {path : Path} {id : DatasetId}
    (node : t.nodes.get? path = some (.dataset id)) : id < t.datasets.length := by
  obtain ⟨d, found, -⟩ := sound.named node
  exact lt_of_getElem? found

theorem lt_of_open (sound : t.Sound) {path : Path} {operation : String} {id : DatasetId}
    (h : t.openDataset path operation = .ok id) : id < t.datasets.length := by
  obtain ⟨target, node⟩ := openDataset_eq_ok h
  exact sound.lt_of_node node

/-- One path, one dataset. -/
theorem eq_of_path (sound : t.Sound) {id id' : DatasetId} {d d' : Dataset}
    (h : t.datasets[id]? = some d) (h' : t.datasets[id']? = some d') (same : d.path = d'.path) :
    id = id' := by
  have nodes := (sound.placed h).symm.trans (same ▸ sound.placed h')
  cases nodes
  rfl

end Sound

theorem sound_empty : empty.Sound where
  placed := fun h => by cases h
  each := fun h => by cases h
  named := by
    intro path id h
    by_cases top : Path.root = path
    · subst top
      have root : Tree.empty.nodes.get? .root = some (.group ∅) := SortedMap.get?_insert_self ..
      rw [root] at h
      cases h
    · have other : Tree.empty.nodes.get? path = (∅ : SortedMap Path Node).get? path :=
        SortedMap.get?_insert_of_ne _ _ top
      rw [other] at h
      cases h

/-! ## One dataset changed

The path of a dataset is not changed by any step, so the node at its path names it still. -/

@[simp] theorem nodes_updateDataset (t : Tree) (id : DatasetId) (d : Dataset) :
    (t.updateDataset id d).nodes = t.nodes := rfl

theorem Sound.updateDataset (sound : t.Sound) {id : DatasetId} {d : Dataset}
    (known : id < t.datasets.length) (path : d.path = (t.dataset id).path) (ok : d.Sound) :
    (t.updateDataset id d).Sound := by
  have old := getElem?_of_lt known
  have entry {other : DatasetId} {found : Dataset}
      (h : (t.updateDataset id d).datasets[other]? = some found) :
      (other = id ∧ found = d) ∨ t.datasets[other]? = some found := by
    simp only [Tree.updateDataset, List.getElem?_set] at h
    split at h
    · next same =>
      cases h
      exact .inl ⟨same.symm, rfl⟩
    · exact .inr h
  refine ⟨fun h => ?_, fun h => ?_, fun h => ?_⟩
  · rcases entry h with ⟨rfl, rfl⟩ | h
    · exact path ▸ sound.placed old
    · exact sound.placed h
  · obtain ⟨found, at_, named⟩ := sound.named h
    simp only [Tree.updateDataset, List.getElem?_set]
    split
    · next same =>
      subst same
      rw [old] at at_
      cases at_
      exact ⟨d, rfl, path.trans named⟩
    · exact ⟨found, at_, named⟩
  · rcases entry h with ⟨-, rfl⟩ | h
    · exact ok
    · exact sound.each h

/-! ## Groups made on the way -/

/-- A tree with further empty groups, where nothing was, on the way to a goal. -/
structure Grown (goal : List String) (t t' : Tree) : Prop where
  datasets : t'.datasets = t.datasets
  nodes : ∀ path, t'.nodes.get? path = t.nodes.get? path ∨
    t.nodes.get? path = none ∧ t'.nodes.get? path = some (.group ∅) ∧ path.segments <+: goal

theorem Grown.refl (goal : List String) (t : Tree) : Grown goal t t := ⟨rfl, fun _ => .inl rfl⟩

theorem get?_putNode (t : Tree) (path : Path) (node : Node) (other : Path) :
    (t.putNode path node).nodes.get? other =
      if path = other then some node else t.nodes.get? other := by
  split
  · next same => subst same; exact SortedMap.get?_insert_self ..
  · next apart => exact SortedMap.get?_insert_of_ne _ _ apart

theorem Grown.trans {t'' : Tree} {goal : List String} (h : Grown goal t t')
    (h' : Grown goal t' t'') : Grown goal t t'' := by
  refine ⟨h'.datasets.trans h.datasets, fun path => ?_⟩
  rcases h.nodes path with same | ⟨absent, made, on⟩
  · rw [← same]
    exact h'.nodes path
  · rcases h'.nodes path with same | ⟨absent', -⟩
    · exact .inr ⟨absent, same.trans made, on⟩
    · rw [made] at absent'
      cases absent'

theorem grown_putNode {t : Tree} {path : Path} {goal : List String}
    (absent : t.nodes.get? path = none) (on : path.segments <+: goal) :
    Grown goal t (t.putNode path (.group ∅)) := by
  refine ⟨rfl, fun other => ?_⟩
  rw [get?_putNode]
  split
  · next same => subst same; exact .inr ⟨absent, rfl, on⟩
  · exact .inl rfl

theorem grown_of_ensureGroups {goal prior : Path} {segments : List String}
    (ok : ∀ s ∈ segments, Path.IsSegment s)
    (h : t.ensureGroups goal prior segments = .ok t') :
    Grown (prior.segments ++ segments) t t' := by
  induction segments generalizing t prior with
  | nil =>
    cases h
    exact .refl _ _
  | cons segment rest ih =>
    have name := prior.segments_join_of_isSegment (ok segment (List.mem_cons_self ..))
    have later : ∀ s ∈ rest, Path.IsSegment s := fun s mem => ok s (List.mem_cons_of_mem _ mem)
    rw [ensureGroups] at h
    rw [Path.segments_append_cons (ok segment (List.mem_cons_self ..))]
    split at h
    · exact ih later h
    · cases h
    · next absent => exact (grown_putNode absent (List.prefix_append ..)).trans (ih later h)

theorem grown_of_ensureGroup {path : Path} (h : t.ensureGroup path = .ok t') :
    Grown path.segments t t' := grown_of_ensureGroups path.segments_ok h

theorem grown_of_ensureParent {path : Path} (h : t.ensureParent path = .ok t') :
    Grown path.segments.dropLast t t' := by
  unfold ensureParent Path.parent? at h
  split at h
  · next parent found =>
    split at found
    · cases found
    · cases found
      exact grown_of_ensureGroup h
  · cases h
    exact .refl _ _

theorem Sound.grown {goal : List String} (sound : t.Sound) (h : Grown goal t t') : t'.Sound := by
  refine ⟨fun {id d} found => ?_, fun {path id} node => ?_, fun found => ?_⟩
  · rw [h.datasets] at found
    have here := sound.placed found
    rcases h.nodes d.path with same | ⟨absent, -⟩
    · exact same.trans here
    · rw [absent] at here
      cases here
  · rcases h.nodes path with same | ⟨-, made, -⟩
    · rw [h.datasets]
      exact sound.named (same ▸ node)
    · rw [made] at node
      cases node
  · exact sound.each (h.datasets ▸ found)

/-! ## One node put -/

/-- A node that is no dataset's, put where no dataset is. -/
theorem Sound.putNode (sound : t.Sound) {path : Path} {node : Node}
    (plain : ∀ id, node ≠ .dataset id) (free : ∀ id, t.nodes.get? path ≠ some (.dataset id)) :
    (t.putNode path node).Sound := by
  refine ⟨fun {id d} found => ?_, fun {other id} h => ?_, fun found => sound.each found⟩
  · rw [get?_putNode]
    split
    · next same => exact absurd (same ▸ sound.placed found) (free id)
    · exact sound.placed found
  · rw [get?_putNode] at h
    split at h
    · exact absurd (Option.some.inj h) (plain id)
    · exact sound.named h

theorem createDataset_eq_ok {d : Dataset} (h : t.createDataset d = .ok t') :
    t.nodes.get? d.path = none ∧ ¬(d.extensible = true ∧ d.dims = []) ∧
      ∃ grown, t.ensureParent d.path = .ok grown ∧ Grown d.path.segments.dropLast t grown ∧
        t' = { grown.putNode d.path (.dataset t.datasets.length) with
          datasets := t.datasets ++ [d] } := by
  simp only [createDataset] at h
  split at h
  · cases h
  · next absent =>
    split at h
    · cases h
    · next axis =>
      obtain ⟨grown, made, h⟩ := exists_of_bind_eq_ok h
      have groups := grown_of_ensureParent made
      cases h
      rw [groups.datasets]
      exact ⟨by simpa [SortedMap.contains] using absent, axis, grown, made, groups, rfl⟩

/-- A dataset of a list with one more is an old one, or it is the new one. -/
theorem old_or_new {ds : List Dataset} {d found : Dataset} {id : DatasetId}
    (h : (ds ++ [d])[id]? = some found) : ds[id]? = some found ∨ id = ds.length ∧ found = d := by
  rcases Nat.lt_or_ge id ds.length with low | high
  · rw [List.getElem?_append_left low] at h
    exact .inl h
  · rw [List.getElem?_append_right high, List.getElem?_singleton] at h
    split at h
    · next last =>
      cases h
      exact .inr ⟨Nat.le_antisymm (Nat.sub_eq_zero_iff_le.1 last) high, rfl⟩
    · cases h

theorem Sound.createDataset (sound : t.Sound) {d : Dataset} (ok : d.Sound)
    (h : t.createDataset d = .ok t') : t'.Sound := by
  obtain ⟨absent, -, grown, -, groups, rfl⟩ := createDataset_eq_ok h
  have before := sound.grown groups
  have free {id : DatasetId} {old : Dataset} (found : t.datasets[id]? = some old) :
      d.path ≠ old.path := by
    intro same
    have here := sound.placed found
    rw [← same, absent] at here
    cases here
  refine ⟨fun {id found} h => ?_, fun {path id} h => ?_, fun h => ?_⟩
  · have node := get?_putNode grown d.path (.dataset t.datasets.length) found.path
    rcases old_or_new h with old | ⟨rfl, rfl⟩
    · rw [if_neg (free old)] at node
      exact node.trans (before.placed (groups.datasets ▸ old))
    · rw [if_pos rfl] at node
      exact node
  · have node := get?_putNode grown d.path (.dataset t.datasets.length) path
    rw [show Tree.nodes _ = (grown.putNode d.path (.dataset t.datasets.length)).nodes from rfl,
      node] at h
    split at h
    · next same =>
      cases h
      exact ⟨d, by simp, same⟩
    · obtain ⟨old, found, named⟩ := before.named h
      rw [groups.datasets] at found
      exact ⟨old, (List.getElem?_append_left (lt_of_getElem? found)).trans found, named⟩
  · rcases old_or_new h with old | ⟨-, rfl⟩
    · exact sound.each old
    · exact ok

theorem createLink_eq_ok {link target : Path} (h : t.createLink link target = .ok t') :
    t.nodes.get? link = none ∧ ∃ grown, t.ensureParent link = .ok grown ∧
      Grown link.segments.dropLast t grown ∧
      t' = grown.putNode link (.link target) := by
  simp only [createLink] at h
  split at h
  · cases h
  · next absent =>
    obtain ⟨grown, made, h⟩ := exists_of_bind_eq_ok h
    cases h
    exact ⟨by simpa [SortedMap.contains] using absent, grown, made, grown_of_ensureParent made,
      rfl⟩

theorem Grown.free {goal : List String} {path : Path} (h : Grown goal t t')
    (absent : t.nodes.get? path = none) (id : DatasetId) :
    t'.nodes.get? path ≠ some (.dataset id) := by
  rcases h.nodes path with same | ⟨-, made, -⟩
  · rw [same, absent]
    simp
  · rw [made]
    simp

/-! ## Any record -/

/-- A dataset that is there becomes something else. -/
theorem Sound.becomes (sound : t.Sound) {path : Path} {id : DatasetId} {d' : Dataset}
    (node : t.nodes.get? path = some (.dataset id)) (becomes : (t.dataset id).Becomes d') :
    (t.updateDataset id d').Sound := by
  have known := sound.lt_of_node node
  exact sound.updateDataset known becomes.alike.path
    (becomes.sound (sound.each (getElem?_of_lt known)))

/-- A record that is applied keeps the tree sound. -/
theorem Sound.apply (sound : t.Sound) {file : String} {r : Record}
    (h : t.apply file r = .ok t') : t'.Sound := by
  cases applied_of_apply h with
  | grouped made => exact sound.grown (grown_of_ensureGroup made)
  | created made =>
    exact sound.createDataset (Dataset.sound_new (createDataset_eq_ok made).2.1) made
  | described found => exact sound.putNode (by simp) (by simp [found])
  | changed node becomes => exact sound.becomes node becomes
  | attached node _ attached => exact sound.becomes node (.attached attached)
  | linked made =>
    obtain ⟨absent, grown, -, groups, rfl⟩ := createLink_eq_ok made
    exact (sound.grown groups).putNode (by simp) (groups.free absent)

end StudyArchive.Tree
