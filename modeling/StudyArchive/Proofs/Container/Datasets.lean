import StudyArchive.Proofs.Container.Commit
import StudyArchive.Proofs.Dataset.Rows
/-
# What a change does to the datasets

To whoever works with paths, a tree is the map from paths to the datasets that lie there
(`Tree.at?`).  A change of a dataset changes this map at one path (`Tree.Turned`); a new object
takes a path where nothing was, with groups above it (`Tree.Planted`).
-/

namespace StudyArchive

namespace Tree

variable {t t' : Tree} {path : Path} {id : DatasetId} {d d' : Dataset}

/-- The dataset that lies at a path itself. -/
def at? (t : Tree) (path : Path) : Option Dataset :=
  match t.nodes.get? path with
  | some (.dataset id) => t.datasets[id]?
  | _ => none

theorem at?_of_node (node : t.nodes.get? path = some (.dataset id)) :
    t.at? path = t.datasets[id]? := by
  unfold at?
  rw [node]

theorem at?_eq_some : t.at? path = some d ↔
    ∃ id, t.nodes.get? path = some (.dataset id) ∧ t.datasets[id]? = some d := by
  constructor
  · intro h
    unfold at? at h
    split at h
    · next id node => exact ⟨id, node, h⟩
    · cases h
  · rintro ⟨id, node, found⟩
    rw [at?_of_node node, found]

theorem Sound.path_of_at? (sound : t.Sound) (h : t.at? path = some d) : d.path = path := by
  obtain ⟨id, node, found⟩ := at?_eq_some.1 h
  obtain ⟨d', found', here⟩ := sound.named node
  rw [found] at found'
  cases found'
  exact here

theorem Sound.sound_of_at? (sound : t.Sound) (h : t.at? path = some d) : d.Sound := by
  obtain ⟨id, -, found⟩ := at?_eq_some.1 h
  exact sound.each found

/-! ## A dataset changed -/

/-- A tree with another dataset at a path where one was. -/
structure Turned (t : Tree) (path : Path) (d' : Dataset) (t' : Tree) : Prop where
  sound : t'.Sound
  nodes : t'.nodes = t.nodes
  at_ : ∀ q, t'.at? q = if q = path then some d' else t.at? q

theorem Turned.here (h : Turned t path d' t') : t'.at? path = some d' := by
  rw [h.at_, if_pos rfl]

theorem Turned.there (h : Turned t path d' t') {q : Path} (apart : q ≠ path) :
    t'.at? q = t.at? q := by
  rw [h.at_, if_neg apart]

theorem Sound.turned_updateDataset (sound : t.Sound)
    (node : t.nodes.get? path = some (.dataset id)) (here : d'.path = path) (ok : d'.Sound) :
    Turned t path d' (t.updateDataset id d') := by
  obtain ⟨d, found, named⟩ := sound.named node
  have known := lt_of_getElem? found
  have old : (t.dataset id).path = path := by rw [dataset_of_getElem? found, named]
  refine ⟨sound.updateDataset known (here.trans old.symm) ok, rfl, fun q => ?_⟩
  split
  · next same =>
    have node' : (t.updateDataset id d').nodes.get? path = some (.dataset id) := node
    rw [same, at?_of_node node']
    simp [Tree.updateDataset, known]
  · next apart =>
    unfold at?
    rw [nodes_updateDataset]
    split
    · next other at_ =>
      have differ : id ≠ other := by
        intro same
        obtain ⟨d₂, found₂, named₂⟩ := sound.named at_
        rw [← same, found] at found₂
        cases found₂
        exact apart (named₂.symm.trans named)
      exact List.getElem?_set_ne differ
    · rfl

/-! ## An object added -/

/-- A tree with an object at a path where nothing was, and groups above it. -/
structure Planted (t : Tree) (path : Path) (t' : Tree) : Prop where
  sound : t'.Sound
  absent : t.nodes.get? path = none
  nodes : ∀ q, q ≠ path → t'.nodes.get? q = t.nodes.get? q ∨
    t.nodes.get? q = none ∧ t'.nodes.get? q = some (.group ∅) ∧
      q.segments <+: path.segments.dropLast

theorem Planted.kept (h : Planted t path t') {q : Path} {node : Node}
    (found : t.nodes.get? q = some node) : t'.nodes.get? q = some node := by
  have apart : q ≠ path := by
    rintro rfl
    rw [h.absent] at found
    cases found
  rcases h.nodes q apart with same | ⟨none, -⟩
  · exact same.trans found
  · rw [none] at found
    cases found

theorem at?_of_absent (absent : t.nodes.get? path = none) : t.at? path = none := by
  unfold at?
  rw [absent]

theorem Sound.planted_createDataset (sound : t.Sound) (ok : d.Sound)
    (h : t.createDataset d = .ok t') :
    Planted t d.path t' ∧ t'.nodes.get? d.path = some (.dataset (t'.datasets.length - 1)) ∧
      ∀ q, t'.at? q = if q = d.path then some d else t.at? q := by
  have sound' := sound.createDataset ok h
  obtain ⟨absent, -, grown, -, groups, eq⟩ := createDataset_eq_ok h
  have before := sound.grown groups
  have nodes (q : Path) : t'.nodes.get? q =
      if d.path = q then some (.dataset t.datasets.length) else grown.nodes.get? q := by
    rw [eq]
    exact get?_putNode grown d.path _ q
  have datasets : t'.datasets = t.datasets ++ [d] := by rw [eq]
  refine ⟨⟨sound', absent, fun q apart => ?_⟩, ?_, fun q => ?_⟩
  · rw [nodes, if_neg (Ne.symm apart)]
    exact groups.nodes q
  · rw [nodes, if_pos rfl, datasets]
    simp
  · unfold at?
    rw [nodes, datasets]
    by_cases same : q = d.path
    · subst same
      simp
    · rw [if_neg (Ne.symm same), if_neg same]
      rcases groups.nodes q with kept | ⟨none, made, -⟩
      · rw [kept]
        split
        · next id node =>
          obtain ⟨old, found, -⟩ := sound.named node
          exact List.getElem?_append_left (lt_of_getElem? found)
        · rfl
      · rw [made, none]

theorem Sound.planted_createLink (sound : t.Sound) {target : Path}
    (h : t.createLink path target = .ok t') :
    Planted t path t' ∧ ∀ q, t'.at? q = t.at? q := by
  obtain ⟨absent, grown, -, groups, rfl⟩ := createLink_eq_ok h
  have sound' : (grown.putNode path (.link target)).Sound :=
    (sound.grown groups).putNode (by simp) (groups.free absent)
  refine ⟨⟨sound', absent, fun q apart => ?_⟩, fun q => ?_⟩
  · rw [get?_putNode, if_neg (Ne.symm apart)]
    exact groups.nodes q
  · have datasets : (grown.putNode path (.link target)).datasets = t.datasets := groups.datasets
    unfold at?
    rw [get?_putNode, datasets]
    by_cases same : path = q
    · subst same
      rw [if_pos rfl, absent]
    · rw [if_neg same]
      rcases groups.nodes q with kept | ⟨none, made, -⟩
      · rw [kept]
      · rw [made, none]

end Tree

/-- A container that is open and whose tree is sound. -/
structure Mounted.Ready (m : Mounted) : Prop where
  sound : m.container.tree.Sound
  isOpen : ∃ w, m.container.writer = some w

namespace Container

variable {m m' : Mounted} {path : Path} {id : DatasetId} {d d' : Dataset}

/-- A container with another dataset at a path where one was. -/
structure Turned (m : Mounted) (path : Path) (d' : Dataset) (m' : Mounted) : Prop where
  ready : m'.Ready
  tree : Tree.Turned m.container.tree path d' m'.container.tree

theorem ready_of_took {r : Record} (ready : m.Ready) (took : Took m r m') : m'.Ready := by
  obtain ⟨-, w', -, -, container⟩ := took.appended
  exact ⟨ready.sound.apply took.applied, w', by rw [container]⟩

/-- A container may take a tree without taking a record: it stays open. -/
theorem ready_of_tree {tree : Tree} (ready : m.Ready) (sound : tree.Sound)
    (eq : m' = { m with container := { m.container with tree } }) : m'.Ready := by
  obtain ⟨-, w, isOpen⟩ := ready
  rw [eq]
  exact ⟨sound, w, isOpen⟩

theorem ends_commit_turned (ready : m.Ready)
    (node : m.container.tree.nodes.get? path = some (.dataset id)) {r : Record}
    (applied : m.container.tree.apply m.container.file r =
      .ok (m.container.tree.updateDataset id d'))
    (here : d'.path = path) (ok : d'.Sound) :
    Ends (commit r) m (fun _ m' => Turned m path d' m')
      (fun e m' => e.isUnencodable ∧ Turned m path d' m') := by
  have turned := ready.sound.turned_updateDataset node here ok
  obtain ⟨w, isOpen⟩ := ready.isOpen
  refine (ends_commit isOpen r).mono (fun _ m' took => ?_) ?_
  · have tree : m'.container.tree = m.container.tree.updateDataset id d' :=
      Except.ok.inj (took.applied.symm.trans applied)
    exact ⟨ready_of_took ready took, tree ▸ turned⟩
  · rintro e m' (⟨-, refused⟩ | ⟨unencodable, tree, applied', eq⟩)
    · rw [applied] at refused
      cases refused
    · obtain rfl := Except.ok.inj (applied'.symm.trans applied)
      refine ⟨unencodable, ready_of_tree ready turned.sound eq, ?_⟩
      rw [eq]
      exact turned

/-- The dataset of an identifier that a path has. -/
theorem dataset_eq_of_node (node : m.container.tree.nodes.get? path = some (.dataset id))
    (found : m.container.tree.at? path = some d) :
    m.container.dataset id = d ∧ id < m.container.tree.datasets.length := by
  rw [Tree.at?_of_node node] at found
  exact ⟨Tree.dataset_of_getElem? found, Tree.lt_of_getElem? found⟩

variable (ready : m.Ready) (node : m.container.tree.nodes.get? path = some (.dataset id))
  (found : m.container.tree.at? path = some d)

include ready node found

/-- Growing a dataset: only a record without a frame fails. -/
theorem ends_extend {extent : Nat} (grown : d.extend extent = .ok d') :
    Ends (extend id extent) m (fun _ m' => Turned m path d' m')
      (fun e m' => e.isUnencodable ∧ Turned m path d' m') := by
  obtain ⟨dataset, known⟩ := dataset_eq_of_node node found
  have here := ready.sound.path_of_at? found
  obtain ⟨-, -, extensible, -⟩ := Dataset.extend_eq_ok grown
  unfold extend
  simp only [ends_bind, ends_get, dataset, extensible, if_true]
  refine ends_commit_turned ready node ?_ ?_ ((ready.sound.sound_of_at? found).extend grown)
  · have opened := ready.sound.openDataset known "extend"
    rw [show m.container.tree.dataset id = d from dataset] at opened
    simp only [Tree.apply, opened, show m.container.tree.dataset id = d from dataset, grown, bind,
      Except.bind, pure, Except.pure]
  · obtain ⟨_, _, _, _, _, rfl⟩ := Dataset.extend_eq_ok grown
    exact here

/-- Writing values that have bytes: only a record without a frame fails. -/
theorem ends_write_turned {operation : String} {s : Selection} {values : List Datum}
    {payload : Bytes} (written : d.write operation s values = .ok d')
    (encoded : m.container.payload d operation values = .ok payload) :
    Ends (write id operation s values) m (fun _ m' => Turned m path d' m')
      (fun e m' => e.isUnencodable ∧ Turned m path d' m') := by
  obtain ⟨dataset, known⟩ := dataset_eq_of_node node found
  have here := ready.sound.path_of_at? found
  have ok := (ready.sound.sound_of_at? found).write written
  have path' : d'.path = path := (Dataset.alike_of_write written).1.path.trans here
  have turned := ready.sound.turned_updateDataset node path' ok
  obtain ⟨w, isOpen⟩ := ready.isOpen
  have checked := (Dataset.write_eq_ok written).1
  unfold write
  simp only [ends_bind, ends_get, dataset, checked, encoded, written, ends_liftExcept_ok,
    ends_setTree]
  generalize next : Mounted.mk m.disk _ = after
  have opened : after.container.writer = some w := by rw [← next]; exact isOpen
  have tree : after.container.tree = m.container.tree.updateDataset id d' := by rw [← next]
  refine (ends_append opened _).mono ?_ ?_
  · rintro _ m' ⟨w', -, container⟩
    refine ⟨⟨?_, w', by rw [container]⟩, ?_⟩
    · rw [container]
      exact tree ▸ turned.sound
    · rw [container]
      exact tree ▸ turned
  · rintro e m' ⟨rfl, unencodable⟩
    exact ⟨unencodable, ⟨tree ▸ turned.sound, w, opened⟩, tree ▸ turned⟩

/-- Whatever comes of a write, at most the one dataset changes, and it changes by the write. -/
theorem ends_write_or {operation : String} {s : Selection} {values : List Datum} :
    Ends (write id operation s values) m
      (fun _ m' => ∃ d', d.write operation s values = .ok d' ∧ Turned m path d' m')
      (fun _ m' => m' = m ∨ ∃ d', d.write operation s values = .ok d' ∧ Turned m path d' m') := by
  obtain ⟨dataset, known⟩ := dataset_eq_of_node node found
  have here := ready.sound.path_of_at? found
  have sound := ready.sound.sound_of_at? found
  have turned {d' : Dataset} (written : d.write operation s values = .ok d') :=
    ready.sound.turned_updateDataset node
      ((Dataset.alike_of_write written).1.path.trans here) (sound.write written)
  obtain ⟨w, isOpen⟩ := ready.isOpen
  refine (ends_write ready.sound isOpen known operation s values).mono ?_ ?_
  · rintro _ m' ⟨d', r, written, tree, -, took⟩
    rw [dataset] at written
    exact ⟨d', written, ready_of_took ready took, tree ▸ turned written⟩
  · rintro e m' (rfl | ⟨-, d', written, eq⟩)
    · exact .inl rfl
    · rw [dataset] at written
      refine .inr ⟨d', written, ready_of_tree ready (turned written).sound eq, ?_⟩
      rw [eq]
      exact turned written

omit node found

/-! ## Scales

Naming and attaching change what is said of a dataset and none of its cells. -/

/-- A container in which no dataset holds other data. -/
structure Relabelled (m m' : Mounted) : Prop where
  ready : m'.Ready
  nodes : m'.container.tree.nodes = m.container.tree.nodes
  at_ : ∀ q d, m.container.tree.at? q = some d →
    ∃ d', m'.container.tree.at? q = some d' ∧ Dataset.SameRows d d'

omit ready in
theorem Turned.relabelled (h : Turned m path d' m') (found : m.container.tree.at? path = some d)
    (same : Dataset.SameRows d d') : Relabelled m m' := by
  refine ⟨h.ready, h.tree.nodes, fun q e here => ?_⟩
  by_cases at_ : q = path
  · subst at_
    rw [found] at here
    cases here
    exact ⟨d', h.tree.here, same⟩
  · exact ⟨e, (h.tree.there at_).trans here, .refl e⟩

theorem turned_self (found : m.container.tree.at? path = some d) : Turned m path d m := by
  refine ⟨ready, ready.sound, rfl, fun q => ?_⟩
  split
  · next same => rw [same, found]
  · rfl

/-- Naming a scale: only a record without a frame fails. -/
theorem ends_markScale (found : m.container.tree.datasets[id]? = some d) (name : String) :
    Ends (markScale id name) m (fun _ m' => Turned m d.path (d.markScale name) m')
      (fun err m' => err.isUnencodable ∧ Turned m d.path (d.markScale name) m') := by
  have known := Tree.lt_of_getElem? found
  have dataset : m.container.tree.dataset id = d := Tree.dataset_of_getElem? found
  have node := ready.sound.placed found
  have here := (Tree.at?_of_node node).trans found
  have opened := ready.sound.openDataset known "mark_scale"
  have same : m.container.dataset id = d := dataset
  unfold markScale
  simp only [ends_bind, ends_get, same]
  split
  · next named =>
    have marked : d.markScale name = d := by rw [Dataset.markScale, ← named]
    exact ends_pure.2 (marked.symm ▸ turned_self ready here)
  · rw [dataset] at opened
    have applied : m.container.tree.apply m.container.file (.markScale d.path name) =
        .ok (m.container.tree.updateDataset id (d.markScale name)) := by
      simp only [Tree.apply, opened, dataset, bind, Except.bind, pure, Except.pure]
    exact ends_commit_turned ready node applied rfl ((ready.sound.each found).markScale name)

/-- Attaching a scale: beyond the axes of the dataset it is refused, and else it is done, of which
only a record without a frame fails. -/
theorem ends_attachScale {scale : DatasetId} {e : Dataset}
    (found : m.container.tree.datasets[id]? = some d)
    (found' : m.container.tree.datasets[scale]? = some e) (label : String) (axis : Nat) :
    Ends (attachScale id scale label axis) m
      (fun _ m' => ∃ d', d.attachScale axis ⟨e.path, label⟩ = .ok d' ∧ Turned m d.path d' m')
      (fun err m' => (err = .invalidIndex d.path "attach_scale" axis d.rank ∧ d.rank ≤ axis ∧
          m' = m) ∨
        err.isUnencodable ∧
          ∃ d', d.attachScale axis ⟨e.path, label⟩ = .ok d' ∧ Turned m d.path d' m') := by
  have known := Tree.lt_of_getElem? found
  have known' := Tree.lt_of_getElem? found'
  have dataset : m.container.tree.dataset id = d := Tree.dataset_of_getElem? found
  have dataset' : m.container.tree.dataset scale = e := Tree.dataset_of_getElem? found'
  have node := ready.sound.placed found
  have here := (Tree.at?_of_node node).trans found
  have opened := ready.sound.openDataset known "attach_scale"
  have opened' := ready.sound.openDataset known' "attach_scale"
  rw [dataset] at opened
  rw [dataset'] at opened'
  have same : m.container.dataset id = d := dataset
  have same' : m.container.dataset scale = e := dataset'
  have axes := (ready.sound.each found).scales_length
  unfold attachScale
  simp only [ends_bind, ends_get, same, same']
  split
  · next beyond => exact ends_bind.2 (ends_throw.2 (.inl ⟨rfl, beyond, rfl⟩))
  · next inside =>
    have inside : ¬d.scales.length ≤ axis := axes.symm ▸ inside
    split
    · next there =>
      refine ends_pure.2 ⟨d, ?_, turned_self ready here⟩
      rw [Dataset.attachScale, if_neg inside, if_pos there]
    · next fresh =>
      obtain ⟨d', attaches⟩ : ∃ d', d.attachScale axis ⟨e.path, label⟩ = .ok d' := by
        rw [Dataset.attachScale, if_neg inside, if_neg fresh]
        exact ⟨_, rfl⟩
      have same := Dataset.sameRows_of_attachScale attaches
      have applied : m.container.tree.apply m.container.file
          (.attachScale d.path e.path label axis) =
          .ok (m.container.tree.updateDataset id d') := by
        simp only [Tree.apply, opened, opened', dataset, dataset', attaches, bind, Except.bind,
          pure, Except.pure]
      simp only [ends_bind, ends_pure]
      exact (ends_commit_turned ready node applied same.alike.path
        ((ready.sound.each found).attachScale attaches)).mono
        (fun _ _ h => ⟨d', attaches, h⟩) fun _ _ h => .inr ⟨h.1, d', attaches, h.2⟩

/-! ## New objects -/

/-- A container with a new dataset at a path. -/
structure Made (m : Mounted) (d : Dataset) (m' : Mounted) : Prop where
  ready : m'.Ready
  planted : Tree.Planted m.container.tree d.path m'.container.tree
  at_ : ∀ q, m'.container.tree.at? q =
    if q = d.path then some d else m.container.tree.at? q

theorem ends_createDataset (path : Path) (type : DataType) (dims : List Nat) (extensible : Bool)
    (chunkRows : Nat) (fill : Datum) :
    Ends (createDataset path type dims extensible chunkRows fill) m
      (fun id m' => Made m (.new path type dims extensible chunkRows fill) m' ∧
        m'.container.tree.nodes.get? path = some (.dataset id))
      (fun _ m' => m' = m ∨ Made m (.new path type dims extensible chunkRows fill) m') := by
  obtain ⟨w, isOpen⟩ := ready.isOpen
  have made {tree : Tree} (applied : m.container.tree.createDataset
      (.new path type dims extensible chunkRows fill) = .ok tree) :=
    ready.sound.planted_createDataset
      (Dataset.sound_new (Tree.createDataset_eq_ok applied).2.1) applied
  unfold createDataset
  by_cases fits : fill.conforms type
  · simp only [fits, if_true, ends_bind, ends_get, ends_pure]
    refine (ends_commit isOpen _).mono (fun _ m' took => ?_) ?_
    · obtain ⟨planted, node, at_⟩ := made took.applied
      exact ⟨⟨ready_of_took ready took, planted, at_⟩, node⟩
    · rintro e m' (⟨rfl, -⟩ | ⟨-, tree, applied, eq⟩)
      · exact .inl rfl
      · obtain ⟨planted, -, at_⟩ := made applied
        refine .inr ⟨ready_of_tree ready planted.sound eq, ?_, ?_⟩ <;> rw [eq]
        · exact planted
        · exact at_
  · simp [fits]

theorem ends_createLink (link target : Path) :
    Ends (createLink link target) m
      (fun _ m' => m' = m ∨ m'.Ready ∧
        Tree.Planted m.container.tree link m'.container.tree ∧
        ∀ q, m'.container.tree.at? q = m.container.tree.at? q)
      (fun _ m' => m' = m ∨ m'.Ready ∧
        Tree.Planted m.container.tree link m'.container.tree ∧
        ∀ q, m'.container.tree.at? q = m.container.tree.at? q) := by
  obtain ⟨w, isOpen⟩ := ready.isOpen
  unfold createLink
  simp only [ends_bind, ends_get]
  split
  · split <;> simp
  · refine (ends_commit isOpen _).mono (fun _ m' took => ?_) ?_
    · obtain ⟨planted, at_⟩ := ready.sound.planted_createLink took.applied
      exact .inr ⟨ready_of_took ready took, planted, at_⟩
    · rintro e m' (⟨rfl, -⟩ | ⟨-, tree, applied, eq⟩)
      · exact .inl rfl
      · obtain ⟨planted, at_⟩ := ready.sound.planted_createLink applied
        refine .inr ⟨ready_of_tree ready planted.sound eq, ?_, ?_⟩ <;> rw [eq]
        · exact planted
        · exact at_

/-- Setting an attribute of the root leaves its being there and every other object as they are. -/
theorem ends_setAttribute_root {attributes : SortedMap String AttrValue}
    (top : m.container.tree.nodes.get? .root = some (.group attributes)) (name : String)
    (value : AttrValue) :
    Ends (setAttribute .root name value) m
      (fun _ m' => m'.Ready ∧ m'.container.tree.nodes =
        m.container.tree.nodes.insert .root (.group (attributes.insert name value)))
      (fun _ _ => True) := by
  obtain ⟨w, isOpen⟩ := ready.isOpen
  have resolved := Tree.resolvePath?_of_get? top (by simp)
  unfold setAttribute
  simp only [ends_bind, ends_get, resolved]
  refine (ends_commit isOpen _).mono (fun _ m' took => ?_) fun _ _ _ => trivial
  refine ⟨ready_of_took ready took, ?_⟩
  have applied := took.applied
  simp only [Tree.apply, Tree.setAttribute, top, Except.ok.injEq] at applied
  rw [← applied]
  rfl

end Container
end StudyArchive
