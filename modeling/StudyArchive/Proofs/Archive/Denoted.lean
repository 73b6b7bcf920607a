import StudyArchive.Proofs.Archive.Passage
import StudyArchive.Proofs.Container.Datasets
import StudyArchive.Proofs.Datum.Conforming
/-
# Datasets that paths denote

A path denotes the dataset at the end of its soft links, and an archive may remember it by any such
path.  An archive in use, whoever shares it, remembers nothing else (`Archive.Coherent`), so every
operation on a path works on the dataset that the path denotes.  Growing a dataset and putting data
into it change this one dataset (`Archive.Altered`); under which path they were asked for only
matters to what is remembered.
-/

namespace StudyArchive

/-! ## Elements -/

namespace ElementType

theorem isElement_toDatum (e : ElementType) (v : e.Value) : (e.toDatum v).isElement e := by
  cases e with
  | int32 => exact Datum.fitsInt32_toInt64 v
  | _ => rfl

theorem exists_encode_toDatum (e : ElementType) (v : e.Value) :
    ∃ bytes, (e.toDatum v).encode (.scalar e) = .ok bytes := by
  cases e with
  | int32 => exact ⟨_, if_pos (Datum.fitsInt32_toInt64 v)⟩
  | _ => exact ⟨_, rfl⟩

end ElementType

theorem Container.exists_payload {d : Dataset} {e : ElementType} (type : d.type = .scalar e)
    (c : Container) (operation : String) (values : List e.Value) :
    ∃ bytes, c.payload d operation (values.map e.toDatum) = .ok bytes := by
  induction values with
  | nil => exact ⟨[], rfl⟩
  | cons v rest ih =>
    obtain ⟨more, rest_eq⟩ := ih
    obtain ⟨first, first_eq⟩ := e.exists_encode_toDatum v
    have fits : (e.toDatum v).conforms d.type := by
      rw [type]
      exact e.isElement_toDatum v
    refine ⟨first ++ more, ?_⟩
    simp only [List.map_cons, payload, fits, if_true]
    rw [rest_eq, type, first_eq]
    rfl

/-! ## Denoting -/

namespace Tree

variable {t t' : Tree} {path : Path} {id : DatasetId} {operation : String}

/-- The dataset that a path denotes. -/
def denoted? (t : Tree) (path : Path) : Option DatasetId :=
  match t.resolve? path with
  | some (_, .dataset id) => some id
  | _ => none

theorem openDataset_eq (t : Tree) (path : Path) (operation : String) :
    t.openDataset path operation =
      match t.denoted? path with
      | some id => .ok id
      | none => .error (.notFound path operation) := by
  unfold openDataset denoted?
  rw [resolveNode?_eq]
  cases t.resolve? path with
  | none => rfl
  | some found =>
    obtain ⟨own, node⟩ := found
    cases node <;> rfl

theorem denoted?_of_open (h : t.openDataset path operation = .ok id) :
    t.denoted? path = some id := by
  rw [openDataset_eq] at h
  split at h
  · next found =>
    cases h
    exact found
  · cases h

/-- Which dataset a path denotes depends on the namespace only. -/
theorem denoted?_congr (nodes : t'.nodes = t.nodes) (path : Path) :
    t'.denoted? path = t.denoted? path := by
  unfold denoted?
  rw [resolve?_congr nodes]

theorem denoted?_of_node (node : t.nodes.get? path = some (.dataset id)) :
    t.denoted? path = some id := by
  unfold denoted?
  rw [resolve?_of_get? node (by simp)]

theorem Sound.lt_of_denoted? (sound : t.Sound) (h : t.denoted? path = some id) :
    id < t.datasets.length := by
  have opened : t.openDataset path "" = .ok id := by rw [openDataset_eq, h]
  exact sound.lt_of_open opened

theorem Sound.length_le_of_nodes (sound : t.Sound) (sound' : t'.Sound)
    (nodes : t'.nodes = t.nodes) : t.datasets.length ≤ t'.datasets.length := by
  refine Nat.le_of_not_lt fun fewer => ?_
  have node := sound.placed (getElem?_of_lt fewer)
  rw [← nodes] at node
  obtain ⟨d, found, -⟩ := sound'.named node
  exact Nat.lt_irrefl _ (lt_of_getElem? found)

end Tree

namespace Archive

variable {a a' a'' : Archive} {path : Path} {id : DatasetId} {d d' d'' : Dataset}

section
variable {operation : String} {rank : Nat} {e : ElementType}
  (looked : a.lookup path operation = .ok id) (same : (a.dataset id).rank = rank)

include looked same

theorem lookupRank_eq_ok : a.lookupRank path operation rank = .ok id := by
  unfold lookupRank expectRank
  rw [bind_of_eq_ok looked, if_pos same]
  rfl

theorem lookupTyped_eq_ok (type : (a.dataset id).type = .scalar e) :
    a.lookupTyped path operation rank e = .ok id := by
  unfold lookupTyped expectType
  rw [bind_of_eq_ok (lookupRank_eq_ok looked same), if_pos (by rw [type]; rfl)]
  rfl

theorem find_eq_ok_of_lookup (type : (a.dataset id).type = .scalar e) :
    find path operation rank e a = .ok id a := by
  unfold find
  rw [get_bind, lookupTyped_eq_ok looked same type]
  rfl

end

/-- Where an archive remembers of a path only what it denotes, an operation on the path works on the
dataset that the path denotes. -/
theorem lookup_eq_of_handles
    (handles : ∀ path id, a.handles.get? path = some id → a.tree.denoted? path = some id)
    (path : Path) (operation : String) :
    a.lookup path operation = a.tree.openDataset path operation := by
  unfold lookup
  split
  · next id kept => rw [Tree.openDataset_eq, handles path id kept]
  · rfl

/-- An archive that is open, with a sound tree, and that remembers of a path only what it
denotes. -/
structure Coherent (a : Archive) : Prop where
  ready : a.mounted.Ready
  handles : ∀ path id, a.handles.get? path = some id → a.tree.denoted? path = some id

theorem Coherent.lookup_eq (coherent : a.Coherent) (path : Path) (operation : String) :
    a.lookup path operation = a.tree.openDataset path operation :=
  lookup_eq_of_handles coherent.handles path operation

theorem Coherent.lookup_eq_ok (coherent : a.Coherent) (denotes : a.tree.denoted? path = some id)
    (operation : String) : a.lookup path operation = .ok id := by
  rw [coherent.lookup_eq, Tree.openDataset_eq, denotes]

theorem find_eq_ok (coherent : a.Coherent) (denotes : a.tree.denoted? path = some id)
    {rank : Nat} {e : ElementType} (same : (a.dataset id).rank = rank)
    (type : (a.dataset id).type = .scalar e) (operation : String) :
    find path operation rank e a = .ok id a :=
  find_eq_ok_of_lookup (coherent.lookup_eq_ok denotes operation) same type

theorem Coherent.denoted?_of_lookup (coherent : a.Coherent) {operation : String}
    (h : a.lookup path operation = .ok id) : a.tree.denoted? path = some id := by
  rw [coherent.lookup_eq] at h
  exact Tree.denoted?_of_open h

theorem Coherent.sound_of_lt (coherent : a.Coherent) (known : id < a.tree.datasets.length) :
    (a.dataset id).Sound :=
  coherent.ready.sound.each (Tree.getElem?_of_lt known)

/-! ## One dataset changed

Growing and putting change the dataset that was found and nothing else; what is remembered may get
the path that was asked for. -/

/-- An archive with another dataset of one identifier, which may now be remembered by a path. -/
structure Altered (a : Archive) (path : Path) (id : DatasetId) (d' : Dataset) (a' : Archive) :
    Prop where
  ready : a'.mounted.Ready
  nodes : a'.tree.nodes = a.tree.nodes
  length : a'.tree.datasets.length = a.tree.datasets.length
  here : a'.dataset id = d'
  others : ∀ other, other < a.tree.datasets.length → other ≠ id →
    a'.dataset other = a.dataset other
  handles : ∀ q id', a'.handles.get? q = some id' →
    a.handles.get? q = some id' ∨ q = path ∧ id' = id

theorem Altered.coherent (h : Altered a path id d' a') (coherent : a.Coherent)
    (denotes : a.tree.denoted? path = some id) : a'.Coherent where
  ready := h.ready
  handles q id' kept := by
    rw [Tree.denoted?_congr h.nodes]
    rcases h.handles q id' kept with old | ⟨rfl, rfl⟩
    · exact coherent.handles q id' old
    · exact denotes

theorem Altered.trans (h : Altered a path id d' a') (h' : Altered a' path id d'' a'') :
    Altered a path id d'' a'' where
  ready := h'.ready
  nodes := h'.nodes.trans h.nodes
  length := h'.length.trans h.length
  here := h'.here
  others other known apart :=
    (h'.others other (h.length ▸ known) apart).trans (h.others other known apart)
  handles q id' kept := (h'.handles q id' kept).elim (h.handles q id') .inr

/-- By its own path, whichever path was asked for, the dataset is the other one. -/
theorem Altered.turned (h : Altered a path id d' a') (sound : a.tree.Sound) {own : Path}
    (node : a.tree.nodes.get? own = some (.dataset id)) :
    Tree.Turned a.tree own d' a'.tree := by
  obtain ⟨d, here, named⟩ := sound.named node
  have known : id < a'.tree.datasets.length := h.length ▸ Tree.lt_of_getElem? here
  refine ⟨h.ready.sound, h.nodes, fun q => ?_⟩
  by_cases same : q = own
  · subst same
    rw [if_pos rfl, Tree.at?_of_node (h.nodes ▸ node), Tree.getElem?_of_lt known]
    exact congrArg some h.here
  · rw [if_neg same]
    unfold Tree.at?
    rw [h.nodes]
    split
    · next other node' =>
      obtain ⟨d₁, there, named'⟩ := sound.named node'
      have apart : other ≠ id := by
        rintro rfl
        obtain rfl : d₁ = d := Option.some.inj (there.symm.trans here)
        exact same (named'.symm.trans named)
      have low : other < a.tree.datasets.length := Tree.lt_of_getElem? there
      rw [Tree.getElem?_of_lt low, Tree.getElem?_of_lt (h.length ▸ low)]
      exact congrArg some (h.others other low apart)
    · rfl

section
variable (ready : a.mounted.Ready) (here : a.tree.datasets[id]? = some d)
include ready here

/-- What the container's datasets turn into, the archive's do. -/
theorem altered_of_turned {m : Mounted} (h : Container.Turned a.mounted d.path d' m) :
    Altered a path id d' { a with mounted := m } := by
  have sound : a.tree.Sound := ready.sound
  have nodes : m.container.tree.nodes = a.tree.nodes := h.tree.nodes
  have node : m.container.tree.nodes.get? d.path = some (.dataset id) := by
    rw [nodes, sound.placed here]
  refine ⟨h.ready, nodes, ?_, ?_, fun other known apart => ?_, fun _ _ kept => .inl kept⟩
  · exact Nat.le_antisymm (h.ready.sound.length_le_of_nodes sound nodes.symm)
      (sound.length_le_of_nodes h.ready.sound nodes)
  · exact Tree.dataset_of_getElem? ((Tree.at?_of_node node).symm.trans h.tree.here)
  · have there := Tree.getElem?_of_lt known
    have node' := sound.placed there
    have kept : m.container.tree.at? (a.tree.dataset other).path = _ :=
      h.tree.there fun same => apart (sound.eq_of_path there here same)
    rw [Tree.at?_of_node ((congrArg (SortedMap.get? · _) nodes).trans node')] at kept
    exact Tree.dataset_of_getElem? ((kept.trans (Tree.at?_of_node node')).trans there)

/-- Growing a dataset by a row of fill: only a record without a frame fails. -/
theorem ends_grow_altered (path : Path) (extensible : d.extensible = true) (operation : String) :
    Ends (grow path id operation) a
      (fun i a' => i = d.rows ∧ Container.Recorded a.mounted a'.mounted ∧
        ∃ d', Dataset.Appended d (List.replicate (volume d.dims.tail) d.fill) d' ∧
          Altered a path id d' a')
      (fun e a' => e.isUnencodable ∧
        ∃ d', Dataset.Appended d (List.replicate (volume d.dims.tail) d.fill) d' ∧
          Altered a path id d' a') := by
  have node := ready.sound.placed here
  have found := (Tree.at?_of_node node).trans here
  have d_sound := ready.sound.each here
  have dataset : a.dataset id = d := Tree.dataset_of_getElem? here
  have known : (Mutation.extend id (d.rows + 1)).isProper a.tree :=
    decide_eq_true (Tree.lt_of_getElem? here)
  obtain ⟨n, tail, dims⟩ := List.exists_cons_of_ne_nil (d_sound.axis_of_extensible extensible)
  have rows : d.rows = n := by simp [Dataset.rows, dims]
  have index : d.dims.head?.getD 0 = d.rows := by simp [rows, dims]
  have grown : d.extend (d.rows + 1) = .ok { d with dims := (d.rows + 1) :: tail } := by
    unfold Dataset.extend
    rw [extensible, dims]
    simp [rows]
  have appended := Dataset.appended_of_extend d_sound grown
  obtain ⟨w, isOpen⟩ := ready.isOpen
  unfold grow
  simp only [ends_bind, ends_get, dataset, extensible, if_true, index, ends_onContainer]
  refine ((Container.ends_extend ready node found grown).and
    (Mutation.ends_run ready.sound isOpen known)).mono ?_ ?_
  · rintro _ m ⟨turned, recorded⟩
    have altered : Altered a path id _ _ := altered_of_turned ready here turned
    split
    · exact ends_pure.2 ⟨rfl, recorded, _, appended, altered⟩
    · refine ends_bind.2 (ends_modify.2 (ends_pure.2 ⟨rfl, recorded, _, appended, altered.ready,
        altered.nodes, altered.length, altered.here, altered.others, fun q id' kept => ?_⟩))
      rcases Table.eq_or_get?_of_insert kept with same | old
      · exact .inr same
      · exact altered.handles q id' old
  · rintro e m ⟨⟨unencodable, turned⟩, -⟩
    exact ⟨unencodable, _, appended, altered_of_turned ready here turned⟩

/-- Putting elements over a selection that the dataset takes: only a record without a frame
fails. -/
theorem ends_put_altered (path : Path) {e : ElementType} (type : d.type = .scalar e)
    {operation : String} {s : Selection} {values : List e.Value}
    (written : d.write operation s (values.map e.toDatum) = .ok d') :
    Ends (put id operation s (values.map e.toDatum)) a
      (fun _ a' => Container.Recorded a.mounted a'.mounted ∧ Altered a path id d' a')
      (fun e a' => e.isUnencodable ∧ Altered a path id d' a') := by
  have node := ready.sound.placed here
  have known : (Mutation.write id operation s (values.map e.toDatum)).isProper a.tree :=
    decide_eq_true (Tree.lt_of_getElem? here)
  obtain ⟨w, isOpen⟩ := ready.isOpen
  obtain ⟨payload, encoded⟩ :=
    Container.exists_payload type a.mounted.container operation values
  refine ends_onContainer.2 ?_
  refine ((Container.ends_write_turned ready node ((Tree.at?_of_node node).trans here) written
    encoded).and (Mutation.ends_run ready.sound isOpen known)).mono ?_ ?_
  · rintro _ m ⟨turned, recorded⟩
    exact ⟨recorded, altered_of_turned ready here turned⟩
  · rintro _ m ⟨⟨unencodable, turned⟩, -⟩
    exact ⟨unencodable, altered_of_turned ready here turned⟩

end

end Archive
end StudyArchive
