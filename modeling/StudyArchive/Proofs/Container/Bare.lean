import StudyArchive.Proofs.Container.Datasets
import StudyArchive.Proofs.Together
/-
# Containers without their data

What is made in a container, and what is said of it, depends on its namespace and on what its
datasets are called and shaped like; how they grow, what fills them and what they hold does not
matter.  A dataset without all that is bare (`Dataset.bare`), and so is a tree (`Tree.bare`).  Two
containers whose trees are the same when bare go on side by side, as long as none of their datasets
grows: the same steps succeed, and their bare trees are the same again (`Mounted.Alike`).
-/

namespace StudyArchive

/-! ## Datasets -/

namespace Dataset

variable {d e : Dataset} {axis : Nat} {s : AttachedScale}

/-- A dataset without its data and without all that tells how they are kept. -/
def bare (d : Dataset) : Dataset :=
  { d with extensible := false, chunkRows := 1, fill := default, chunks := ∅ }

@[simp] theorem bare_bare (d : Dataset) : d.bare.bare = d.bare := rfl

@[simp] theorem path_bare (d : Dataset) : d.bare.path = d.path := rfl

theorem bare_attachScale (d : Dataset) (axis : Nat) (s : AttachedScale) :
    d.bare.attachScale axis s = (d.attachScale axis s).map bare := by
  unfold attachScale
  show (if d.scales.length ≤ axis then _ else if (d.scalesAt axis).any (·.scale = s.scale) then _
    else _) = _
  split_ifs <;> rfl

section
variable (same : d.bare = e.bare)

include same

theorem path_eq_of_bare : d.path = e.path := by
  simpa only [bare] using congrArg Dataset.path same

theorem type_eq_of_bare : d.type = e.type := by
  simpa only [bare] using congrArg Dataset.type same

theorem dims_eq_of_bare : d.dims = e.dims := by
  simpa only [bare] using congrArg Dataset.dims same

theorem scaleName_eq_of_bare : d.scaleName = e.scaleName := by
  simpa only [bare] using congrArg Dataset.scaleName same

theorem scales_eq_of_bare : d.scales = e.scales := by
  simpa only [bare] using congrArg Dataset.scales same

theorem checkSelection_eq_of_bare (operation : String) (s : Selection) :
    d.checkSelection operation s = e.checkSelection operation s := by
  unfold checkSelection rank rows
  rw [dims_eq_of_bare same, path_eq_of_bare same]

theorem payload_eq_of_bare {c c' : Container} (file : c'.file = c.file) (operation : String)
    (values : List Datum) : c.payload d operation values = c'.payload e operation values := by
  induction values with
  | nil => rfl
  | cons v rest ih =>
    unfold Container.payload
    rw [ih, type_eq_of_bare same, path_eq_of_bare same, file]

/-- Bare datasets that are the same take the same writes. -/
theorem write_eq_of_bare (operation : String) (s : Selection) (values : List Datum) :
    (d.write operation s values).map bare = (e.write operation s values).map bare := by
  have written (d : Dataset) : (d.setCells s.cells values).bare = d.bare := by
    obtain ⟨chunks, eq⟩ := setCells_eq d s.cells values
    rw [eq]
    rfl
  unfold write
  rw [checkSelection_eq_of_bare same, path_eq_of_bare same]
  cases e.checkSelection operation s with
  | error err => rfl
  | ok _ =>
    simp only [bind, Except.bind]
    split_ifs
    · rfl
    · exact congrArg Except.ok ((written d).trans (same.trans (written e).symm))

end

end Dataset

/-! ## Trees

Records that make objects or describe them do to the bare tree what they do to the tree. -/

/-- A record that neither lets a dataset grow nor writes to it. -/
def Record.isBare : Record → Bool
  | .extend .. | .write .. => false
  | _ => true

namespace Tree

variable {t u : Tree} {path : Path} {id : DatasetId}

/-- A tree whose datasets are bare. -/
def bare (t : Tree) : Tree := { t with datasets := t.datasets.map Dataset.bare }

@[simp] theorem nodes_bare (t : Tree) : t.bare.nodes = t.nodes := rfl

theorem dataset_bare (t : Tree) (id : DatasetId) : t.bare.dataset id = (t.dataset id).bare := by
  unfold dataset bare
  rw [List.getElem?_map]
  cases t.datasets[id]? <;> rfl

theorem bare_updateDataset (t : Tree) (id : DatasetId) (d : Dataset) :
    (t.updateDataset id d).bare = t.bare.updateDataset id d.bare :=
  congrArg (Tree.mk t.nodes) List.map_set

theorem resolvePath?_bare (t : Tree) (path : Path) :
    t.bare.resolvePath? path = t.resolvePath? path := by
  rw [resolvePath?_eq, resolvePath?_eq, resolve?_congr t.nodes_bare]

theorem openDataset_bare (t : Tree) (path : Path) (operation : String) :
    t.bare.openDataset path operation = t.openDataset path operation := by
  unfold openDataset
  rw [resolveNode?_eq, resolveNode?_eq, resolve?_congr t.nodes_bare]

theorem ensureGroups_bare (t : Tree) (goal prior : Path) (segments : List String) :
    t.bare.ensureGroups goal prior segments = (t.ensureGroups goal prior segments).map bare := by
  induction segments generalizing t prior with
  | nil => rfl
  | cons segment rest ih =>
    simp only [ensureGroups, nodes_bare]
    split
    · exact ih t _
    · rfl
    · exact ih (t.putNode _ _) _

theorem bare_bare (t : Tree) : t.bare.bare = t.bare := by
  unfold bare
  rw [List.map_map]
  rfl

theorem map_bare_map (x : Except StorageError Tree) : (x.map bare).map bare = x.map bare := by
  cases x with
  | error e => rfl
  | ok t => exact congrArg Except.ok t.bare_bare

theorem ensureParent_bare (t : Tree) (path : Path) :
    t.bare.ensureParent path = (t.ensureParent path).map bare := by
  unfold ensureParent
  split
  · exact ensureGroups_bare ..
  · rfl

theorem createDataset_bare (t : Tree) (d : Dataset) :
    (t.bare.createDataset d).map bare = (t.createDataset d).map bare := by
  unfold createDataset
  rw [nodes_bare, ensureParent_bare]
  simp only [bind, Except.bind, pure, Except.pure, throw, throwThe, MonadExceptOf.throw]
  split_ifs
  · rfl
  · rfl
  · cases t.ensureParent d.path with
    | error e => rfl
    | ok grown =>
      refine congrArg Except.ok ?_
      simp [bare, putNode, List.map_append]

/-- What a record that leaves the data alone makes of a tree, it makes of the bare tree. -/
theorem apply_bare {r : Record} (aside : r.isBare) (file : String) (t : Tree) :
    (t.bare.apply file r).map bare = (t.apply file r).map bare := by
  cases r with
  | createGroup path =>
    show ((t.bare.ensureGroups ..).map bare) = _
    rw [ensureGroups_bare, map_bare_map]
    rfl
  | createDataset path type dims extensible chunkRows fill => exact createDataset_bare ..
  | setAttribute path name value =>
    simp only [apply, setAttribute, nodes_bare]
    split
    · exact congrArg Except.ok (bare_bare (t.putNode _ _))
    · refine congrArg Except.ok ?_
      rw [bare_updateDataset, bare_updateDataset, bare_bare, dataset_bare]
      rfl
    · rfl
  | markScale path name =>
    simp only [apply, openDataset_bare]
    cases t.openDataset path "mark_scale" with
    | error e => rfl
    | ok id =>
      refine congrArg Except.ok ?_
      rw [bare_updateDataset, bare_updateDataset, bare_bare, dataset_bare]
      rfl
  | attachScale path scale label axis =>
    simp only [apply, openDataset_bare]
    cases t.openDataset scale "attach_scale" with
    | error e => rfl
    | ok scaleId =>
      cases t.openDataset path "attach_scale" with
      | error e => rfl
      | ok id =>
        simp only [dataset_bare, Dataset.path_bare, Dataset.bare_attachScale, bind, Except.bind,
          pure, Except.pure]
        cases (t.dataset id).attachScale axis ⟨(t.dataset scaleId).path, label⟩ with
        | error e => rfl
        | ok d =>
          refine congrArg Except.ok ?_
          rw [bare_updateDataset, bare_updateDataset, bare_bare]
          rfl
  | softLink link target =>
    simp only [apply, createLink, nodes_bare, ensureParent_bare]
    simp only [bind, Except.bind, pure, Except.pure, throw, throwThe, MonadExceptOf.throw]
    split_ifs
    · rfl
    · cases t.ensureParent link with
      | error e => rfl
      | ok grown => exact congrArg Except.ok (bare_bare (grown.putNode _ _))
  | extend path extent => cases aside
  | write path start count payload => cases aside

end Tree

/-! ## Containers -/

/-- The names of a container's file: its own one, and its writer's. -/
def Mounted.names (m : Mounted) : String × Option String :=
  (m.container.file, m.container.writer.map (·.file))

/-- A writer goes on with its file, and leaves the disk's names and locks as they are. -/
theorem LogWriter.keeps_push (w : LogWriter) (disk : Disk) (bytes : Bytes) :
    (w.push disk bytes).1.file = w.file ∧ (w.push disk bytes).1.id = w.id ∧
      (w.push disk bytes).2.folders = disk.folders ∧
      (w.push disk bytes).2.locks = disk.locks := by
  unfold push flush emit
  dsimp only
  split_ifs <;> exact ⟨rfl, rfl, rfl, rfl⟩

theorem LogWriter.file_push (w : LogWriter) (disk : Disk) (bytes : Bytes) :
    (w.push disk bytes).1.file = w.file := (w.keeps_push disk bytes).1

/-- Containers over files of one name append alike, and their trees stay as they are. -/
theorem Container.together_append_of {R : Mounted → Mounted → Prop} {m n : Mounted} (h : R m n)
    (isOpen : ∃ w, m.container.writer = some w) (names : n.names = m.names) (r : Record)
    (next : ∀ m' n' : Mounted, m'.container.tree = m.container.tree →
      n'.container.tree = n.container.tree → (∃ w, m'.container.writer = some w) →
      m'.names = m.names → n'.names = n.names → R m' n') :
    Together R (append r) (append r) m n := by
  obtain ⟨v, left⟩ := isOpen
  have writers : n.container.writer.map (·.file) = m.container.writer.map (·.file) :=
    congrArg Prod.snd names
  rw [left] at writers
  obtain ⟨w, right, file⟩ := Option.map_eq_some_iff.1 writers
  cases encoded : r.encode with
  | error fault =>
    refine .error (e := .io v.file (.unencodable r.path fault)) ?_ ?_ h
    · simp only [append, left, LogWriter.append, encoded]
    · simp only [append, right, LogWriter.append, encoded, file]
  | ok bytes =>
    have appends {l : Mounted} {u : LogWriter} (isOpen : l.container.writer = some u) :
        append r l = .ok () ⟨(u.push l.disk bytes).2, { l.container with
          writer := some { (u.push l.disk bytes).1 with
            position := (u.push l.disk bytes).1.position + bytes.length
            records := (u.push l.disk bytes).1.records + 1 } }⟩ := by
      simp only [append, isOpen, LogWriter.append, encoded]
    refine .ok (appends left) (appends right) (next _ _ rfl rfl ⟨_, rfl⟩ ?_ ?_)
    · simp only [Mounted.names, left, Option.map_some, LogWriter.file_push]
    · simp only [Mounted.names, right, Option.map_some, LogWriter.file_push]

/-- Two open containers over files of one name whose trees are the same when bare. -/
structure Mounted.Alike (m n : Mounted) : Prop where
  bare : n.container.tree.bare = m.container.tree.bare
  isOpen : ∃ w, m.container.writer = some w
  names : n.names = m.names

namespace Mounted.Alike

variable {m n : Mounted} (h : Mounted.Alike m n)

include h

theorem isOpen_right : ∃ w, n.container.writer = some w := by
  obtain ⟨w, left⟩ := h.isOpen
  have writers : n.container.writer.map (·.file) = m.container.writer.map (·.file) :=
    congrArg Prod.snd h.names
  rw [left] at writers
  obtain ⟨w', right, -⟩ := Option.map_eq_some_iff.1 writers
  exact ⟨w', right⟩

theorem file : n.container.file = m.container.file := congrArg Prod.fst h.names

theorem nodes : n.container.tree.nodes = m.container.tree.nodes := by
  rw [← Tree.nodes_bare, h.bare, Tree.nodes_bare]

theorem length : n.container.tree.datasets.length = m.container.tree.datasets.length := by
  simpa [Tree.bare] using congrArg (fun t : Tree => t.datasets.length) h.bare

theorem dataset (id : DatasetId) :
    (m.container.tree.dataset id).bare = (n.container.tree.dataset id).bare := by
  rw [← Tree.dataset_bare, ← Tree.dataset_bare, h.bare]

theorem append (r : Record) :
    Together Mounted.Alike (Container.append r) (Container.append r) m n := by
  refine Container.together_append_of h h.isOpen h.names r
    fun m' n' left right isOpen kept kept' => ⟨?_, isOpen, (kept'.trans h.names).trans kept.symm⟩
  rw [left, right, h.bare]

/-- Trees that are the same when bare may take the place of the old ones. -/
theorem setTree {t u : Tree} (same : t.bare = u.bare) :
    Together Mounted.Alike (Container.setTree t) (Container.setTree u) m n :=
  together_modify ⟨same.symm, h.isOpen, h.names⟩

theorem commit {r : Record} (aside : r.isBare) :
    Together Mounted.Alike (Container.commit r) (Container.commit r) m n := by
  obtain ⟨v, left⟩ := h.isOpen
  obtain ⟨w, right⟩ := h.isOpen_right
  have closed : m.container.isClosed = false := by simp [Container.isClosed, left]
  have closed' : n.container.isClosed = false := by simp [Container.isClosed, right]
  have same : (m.container.tree.apply m.container.file r).map Tree.bare =
      (n.container.tree.apply n.container.file r).map Tree.bare := by
    rw [← Tree.apply_bare aside _ n.container.tree, h.bare, h.file, Tree.apply_bare aside]
  unfold Container.commit
  refine .get ?_
  simp only [closed, closed', Bool.false_eq_true, if_false]
  exact .checkMap h same fun t u _ _ same => (h.setTree same).bind fun _ _ _ h' => h'.append r

theorem createGroup (path : Path) :
    Together Mounted.Alike (Container.createGroup path) (Container.createGroup path) m n := by
  unfold Container.createGroup
  refine .get ?_
  simp only [h.nodes]
  split
  · exact together_pure h
  · exact h.commit rfl

theorem createDataset (path : Path) (type : DataType) (dims : List Nat) (extensible : Bool)
    (chunkRows : Nat) (fill : Datum) :
    Together Mounted.Alike
      (Container.createDataset path type dims extensible chunkRows fill)
      (Container.createDataset path type dims extensible chunkRows fill) m n := by
  unfold Container.createDataset
  refine .ite (fun _ => ?_) fun _ => .error rfl rfl h
  refine (h.commit rfl).bind fun _ m' n' h' => .get ?_
  rw [h'.length]
  exact together_pure h'

theorem setAttribute (path : Path) (name : String) (value : AttrValue) :
    Together Mounted.Alike (Container.setAttribute path name value)
      (Container.setAttribute path name value) m n := by
  have resolved : n.container.tree.resolvePath? path = m.container.tree.resolvePath? path := by
    rw [← Tree.resolvePath?_bare, h.bare, Tree.resolvePath?_bare]
  unfold Container.setAttribute
  refine .get ?_
  rw [resolved]
  split
  · exact h.commit rfl
  · exact together_throw h

theorem markScale (id : DatasetId) (name : String) :
    Together Mounted.Alike (Container.markScale id name) (Container.markScale id name) m n := by
  have bare : (m.container.dataset id).bare = (n.container.dataset id).bare := h.dataset id
  unfold Container.markScale
  refine .get ?_
  simp only [Dataset.scaleName_eq_of_bare bare, Dataset.path_eq_of_bare bare]
  exact .ite (fun _ => together_pure h) fun _ => h.commit rfl

theorem attachScale (id scale : DatasetId) (label : String) (axis : Nat) :
    Together Mounted.Alike (Container.attachScale id scale label axis)
      (Container.attachScale id scale label axis) m n := by
  have bare : (m.container.dataset id).bare = (n.container.dataset id).bare := h.dataset id
  have bare' : (m.container.dataset scale).bare = (n.container.dataset scale).bare :=
    h.dataset scale
  unfold Container.attachScale
  refine .get ?_
  simp only [Dataset.rank, Dataset.scalesAt, Dataset.dims_eq_of_bare bare,
    Dataset.scales_eq_of_bare bare, Dataset.path_eq_of_bare bare, Dataset.path_eq_of_bare bare']
  refine .ite (fun _ => .error rfl rfl h) fun _ => ?_
  exact .ite (fun _ => together_pure h) fun _ => (h.commit rfl).bind fun _ _ _ => together_pure

theorem write (id : DatasetId) (operation : String) (s : Selection) (values : List Datum) :
    Together Mounted.Alike (Container.write id operation s values)
      (Container.write id operation s values) m n := by
  have bare : (m.container.dataset id).bare = (n.container.dataset id).bare := h.dataset id
  unfold Container.write
  refine .get ?_
  simp only [Dataset.checkSelection_eq_of_bare bare, Dataset.payload_eq_of_bare bare h.file,
    Dataset.path_eq_of_bare bare]
  refine .check h fun _ _ => .check h fun bytes _ => ?_
  refine .checkMap h (Dataset.write_eq_of_bare bare operation s values) fun d e _ _ same => ?_
  refine (h.setTree ?_).bind fun _ _ _ h' => h'.append _
  rw [Tree.bare_updateDataset, Tree.bare_updateDataset, h.bare, same]

end Mounted.Alike
end StudyArchive
