import StudyArchive.Proofs.Archive.Denoted
/-
# Archives by path

An archive remembers where growing datasets are; as long as that agrees with the namespace
(`Archive.Sound`), every operation on a path works on the dataset that lies there.  The steps below
are what all appends and writes are made of: finding and putting.
-/

namespace StudyArchive

namespace Archive

variable {a a' : Archive} {path : Path} {id : DatasetId} {d d' : Dataset}

/-- The dataset that lies at a path itself. -/
def at? (a : Archive) (path : Path) : Option Dataset := a.tree.at? path

/-- An archive that is open, with a sound tree, and whose memory of datasets is right. -/
structure Sound (a : Archive) : Prop where
  ready : a.mounted.Ready
  handles : ∀ path id, a.handles.get? path = some id →
    a.tree.nodes.get? path = some (.dataset id)

/-- An archive that remembers no dataset has nothing to be wrong about. -/
theorem sound_of_ready (ready : a.mounted.Ready) (handles : a.handles = ∅) : a.Sound where
  ready := ready
  handles path id kept := by
    rw [handles, Table.get?_empty] at kept
    cases kept

theorem Sound.coherent (sound : a.Sound) : a.Coherent :=
  ⟨sound.ready, fun path id kept => Tree.denoted?_of_node (sound.handles path id kept)⟩

theorem Sound.sound_of_at? (sound : a.Sound) (found : a.at? path = some d) : d.Sound :=
  sound.ready.sound.sound_of_at? found

/-- An archive with another dataset at a path where one was. -/
structure Turned (a : Archive) (path : Path) (d' : Dataset) (a' : Archive) : Prop where
  sound : a'.Sound
  nodes : a'.tree.nodes = a.tree.nodes
  at_ : ∀ q, a'.at? q = if q = path then some d' else a.at? q

theorem Turned.here (h : Turned a path d' a') : a'.at? path = some d' := by
  rw [h.at_, if_pos rfl]

theorem Turned.there (h : Turned a path d' a') {q : Path} (apart : q ≠ path) :
    a'.at? q = a.at? q := by
  rw [h.at_, if_neg apart]

theorem Turned.trans {a'' : Archive} {d'' : Dataset} (h : Turned a path d' a')
    (h' : Turned a' path d'' a'') : Turned a path d'' a'' := by
  refine ⟨h'.sound, h'.nodes.trans h.nodes, fun q => ?_⟩
  rw [h'.at_, h.at_]
  split <;> rfl

theorem Sound.turned_self (sound : a.Sound) (found : a.at? path = some d) :
    Turned a path d a := by
  refine ⟨sound, rfl, fun q => ?_⟩
  split
  · next same => rw [same, found]
  · rfl

/-- What the container's datasets turn into, the archive's do. -/
theorem Sound.turned (sound : a.Sound) {m : Mounted}
    (h : Container.Turned a.mounted path d' m) : Turned a path d' { a with mounted := m } where
  sound := ⟨h.ready, fun q id kept => by
    show m.container.tree.nodes.get? q = _
    rw [h.tree.nodes]
    exact sound.handles q id kept⟩
  nodes := h.tree.nodes
  at_ := h.tree.at_

/-! ## Finding datasets -/

/-- An operation on a path finds the dataset that lies there. -/
theorem Sound.lookup_eq_ok (sound : a.Sound) (found : a.at? path = some d) (operation : String) :
    ∃ id, a.lookup path operation = .ok id ∧ a.tree.nodes.get? path = some (.dataset id) ∧
      a.dataset id = d := by
  obtain ⟨id, node, here⟩ := Tree.at?_eq_some.1 found
  refine ⟨id, ?_, node, Tree.dataset_of_getElem? here⟩
  unfold lookup
  split
  · next id' kept =>
    have node' := sound.handles path id' kept
    rw [node] at node'
    cases node'
    rfl
  · unfold Tree.openDataset
    rw [Tree.resolveNode?_of_get? node (by simp)]

/-- Whatever an operation finds is a dataset of the container. -/
theorem Sound.lt_of_lookup (sound : a.Sound) {operation : String}
    (h : a.lookup path operation = .ok id) : id < a.tree.datasets.length := by
  unfold lookup at h
  split at h
  · next id' kept =>
    cases h
    exact sound.ready.sound.lt_of_node (sound.handles _ _ kept)
  · exact sound.ready.sound.lt_of_open h

section
variable {good : DatasetId → Archive → Prop} {bad : StorageError → Archive → Prop}

/-- Finding a dataset of the rank and type that are asked for. -/
theorem ends_find (sound : a.Sound) (found : a.at? path = some d) {rank : Nat} {e : ElementType}
    (type : d.type = .scalar e) (rank_eq : d.rank = rank) {operation : String}
    (next : ∀ id, a.tree.nodes.get? path = some (.dataset id) → a.dataset id = d → good id a) :
    Ends (find path operation rank e) a good bad := by
  obtain ⟨id, looked, node, rfl⟩ := sound.lookup_eq_ok found operation
  unfold Ends
  rw [find_eq_ok_of_lookup looked rank_eq type]
  exact next id node rfl

end

/-! ## Putting

Data that conform and lie within the extents are put unless their record has no frame. -/

/-- What lies at a path itself is changed with the dataset of its identifier. -/
theorem Sound.turned_of_altered (sound : a.Sound)
    (node : a.tree.nodes.get? path = some (.dataset id)) (h : Altered a path id d' a') :
    Turned a path d' a' := by
  refine ⟨⟨h.ready, fun q id' kept => ?_⟩, h.nodes, (h.turned sound.ready.sound node).at_⟩
  rw [h.nodes]
  rcases h.handles q id' kept with old | ⟨rfl, rfl⟩
  · exact sound.handles q id' old
  · exact node

/-- Putting elements over a selection that the dataset takes: only a record without a frame
fails. -/
theorem ends_put (sound : a.Sound) (found : a.at? path = some d)
    (node : a.tree.nodes.get? path = some (.dataset id)) {e : ElementType}
    (type : d.type = .scalar e) {operation : String} {s : Selection} {values : List e.Value}
    (written : d.write operation s (values.map e.toDatum) = .ok d') :
    Ends (put id operation s (values.map e.toDatum)) a
      (fun _ a' => Container.Recorded a.mounted a'.mounted ∧ Turned a path d' a')
      (fun e a' => e.isUnencodable ∧ Turned a path d' a') := by
  have here : a.tree.datasets[id]? = some d := (Tree.at?_of_node node).symm.trans found
  refine (ends_put_altered sound.ready here path type written).mono ?_ ?_
  · exact fun _ a' good => ⟨good.1, sound.turned_of_altered node good.2⟩
  · exact fun _ a' bad => ⟨bad.1, sound.turned_of_altered node bad.2⟩

end Archive
end StudyArchive
