import StudyArchive.Proofs.Archive.Denoted
import StudyArchive.Proofs.Container.Refused
/-
# Archives in use

Other programs, and other parts of the same one, change a container that the store of evaluations
writes to: they make datasets, links and scales wherever they like, write what they like, and have
their requests refused.  Two things are true whatever they do (`Archive.InUse.coherent`): the tree
is sound, and a path that denotes a dataset goes on to denote it, because nothing is ever removed
and a link is never turned.  So what an archive remembers stays right.
-/

namespace StudyArchive

/-! ## What a record leaves in place

Nodes are put where nothing was, apart from groups that get an attribute; so a link is never
turned and a dataset never moves. -/

namespace Tree

variable {t t' t'' : Tree} {path : Path} {id : DatasetId}

/-- A tree in which every link and every dataset's node is where it was. -/
def Keeps (t t' : Tree) : Prop :=
  ∀ path node, t.nodes.get? path = some node → (∀ attributes, node ≠ .group attributes) →
    t'.nodes.get? path = some node

theorem keeps_of_nodes (nodes : t'.nodes = t.nodes) : Keeps t t' := by
  intro path node found _
  rw [nodes, found]

theorem Grown.keeps {goal : List String} (h : Grown goal t t') : Keeps t t' := by
  intro path node found _
  rcases h.nodes path with same | ⟨absent, -⟩
  · rw [same, found]
  · rw [absent] at found
    cases found

theorem keeps_putNode {node : Node}
    (free : ∀ old, t.nodes.get? path = some old → ∃ attributes, old = .group attributes) :
    Keeps t (t.putNode path node) := by
  intro q old found other
  rw [get?_putNode]
  split
  · next same =>
    obtain ⟨attributes, group⟩ := free old (same ▸ found)
    exact absurd group (other attributes)
  · exact found

/-- An object put where nothing was, after groups were made on the way to it. -/
theorem Grown.keeps_putNode {goal : List String} (h : Grown goal t t') {node : Node}
    (absent : t.nodes.get? path = none) : Keeps t (t'.putNode path node) := by
  intro q old found other
  rw [get?_putNode]
  split
  · next same =>
    rw [← same, absent] at found
    cases found
  · exact h.keeps q old found other

/-- Nothing that a path may denote a dataset by is ever removed. -/
theorem keeps_of_apply {file : String} {r : Record} (h : t.apply file r = .ok t') :
    Keeps t t' := by
  cases applied_of_apply h with
  | grouped made => exact (grown_of_ensureGroup made).keeps
  | created made =>
    obtain ⟨absent, -, grown, -, groups, rfl⟩ := createDataset_eq_ok made
    exact groups.keeps_putNode absent
  | @described _ _ _ attributes found =>
    refine keeps_putNode fun old found' => ⟨attributes, ?_⟩
    exact Option.some.inj (found'.symm.trans found)
  | changed => exact keeps_of_nodes rfl
  | attached => exact keeps_of_nodes rfl
  | linked made =>
    obtain ⟨absent, grown, -, groups, rfl⟩ := createLink_eq_ok made
    exact groups.keeps_putNode absent

/-- A path that denotes a dataset goes on to denote it. -/
theorem Keeps.denoted? (h : Keeps t t') (denotes : t.denoted? path = some id) :
    t'.denoted? path = some id := by
  have follow (steps : Nat) (own : Path) (path : Path)
      (found : t.follow steps path = some (own, .dataset id)) :
      t'.follow steps path = some (own, .dataset id) := by
    induction steps generalizing path with
    | zero => cases found
    | succ steps ih =>
      rw [Tree.follow] at found ⊢
      split at found
      · cases found
      · next target link =>
        rw [h path _ link (by simp)]
        exact ih target found
      · next node other there =>
        cases found
        rw [h _ _ there (by simp)]
  unfold Tree.denoted? resolve? at denotes ⊢
  split at denotes
  · next own id' found =>
    cases denotes
    rw [follow _ own path found]
  · cases denotes

end Tree

/-! ## What any change leaves in place -/

namespace Mutation

open Container

variable {m : Mounted}

/-- Whether the datasets of a change are there. -/
def isAimed (t : Tree) : Mutation → Bool
  | extend id _ | write id _ _ _ | markScale id _ => id < t.datasets.length
  | attachScale id scale _ _ => id < t.datasets.length && scale < t.datasets.length
  | createGroup _ | createDataset .. | setAttribute .. | createLink .. => true

/-- Whatever comes of a change, the container stays open and its tree sound, and keeps every link
and every dataset's node. -/
theorem ends_run_keeps (ready : m.Ready) {μ : Mutation} (aimed : μ.isAimed m.container.tree) :
    Ends μ.run m (fun _ m' => m'.Ready ∧ Tree.Keeps m.container.tree m'.container.tree)
      (fun _ m' => m'.Ready ∧ Tree.Keeps m.container.tree m'.container.tree) := by
  have same : m.Ready ∧ Tree.Keeps m.container.tree m.container.tree :=
    ⟨ready, Tree.keeps_of_nodes rfl⟩
  obtain ⟨w, isOpen⟩ := ready.isOpen
  cases eq : μ.isWrite with
  | false =>
    refine ends_run_of_commit eq same (fun _ _ => same) fun r _ _ => ?_
    refine (ends_commit isOpen r).mono (fun _ m' took => ?_) ?_
    · exact ⟨ready_of_took ready took, Tree.keeps_of_apply took.applied⟩
    · rintro e m' (⟨rfl, -⟩ | ⟨-, tree, applied, rfl⟩)
      · exact same
      · exact ⟨ready_of_tree ready (ready.sound.apply applied) rfl, Tree.keeps_of_apply applied⟩
  | true =>
    obtain ⟨id, operation, s, values, rfl⟩ := exists_of_isWrite eq
    have here := Tree.getElem?_of_lt (of_decide_eq_true aimed)
    have node := ready.sound.placed here
    have turned {path : Path} {d' : Dataset} {m' : Mounted} (h : Turned m path d' m') :
        m'.Ready ∧ Tree.Keeps m.container.tree m'.container.tree :=
      ⟨h.ready, Tree.keeps_of_nodes h.tree.nodes⟩
    refine (ends_write_or ready node ((Tree.at?_of_node node).trans here)).mono ?_ ?_
    · rintro _ m' ⟨d', -, h⟩
      exact turned h
    · rintro _ m' (rfl | ⟨d', -, h⟩)
      · exact same
      · exact turned h

end Mutation

namespace Archive

/-- An archive as whoever shares it leaves it: it was opened, its container was changed at will,
successfully or not, and paths were remembered with the datasets that they denote. -/
inductive InUse : Archive → Prop
  | opened {disk : Disk} {config : StorageConfig} {stamp : Stamp} {a : Archive}
      (h : (openFile disk config stamp).result = .ok a) : InUse a
  | changed {a : Archive} {μ : Mutation} (inUse : InUse a) (aimed : μ.isAimed a.tree) :
      InUse { a with mounted := μ.after a.mounted }
  | remembered {a : Archive} {path : Path} {id : DatasetId} {operation : String}
      (inUse : InUse a) (denotes : a.tree.openDataset path operation = .ok id) :
      InUse { a with handles := a.handles.insert path id }

theorem ready_of_openFile {disk : Disk} {config : StorageConfig} {stamp : Stamp} {c : Container}
    (h : (Container.openFile disk config stamp).result = .ok c) :
    Mounted.Ready ⟨(Container.openFile disk config stamp).disk, c⟩ := by
  obtain ⟨w, frames, logged, -⟩ := (Container.Live.opened h).logged
  exact ⟨logged.sound, w, logged.isOpen⟩

variable {a : Archive}

theorem coherent_of_openFile {disk : Disk} {config : StorageConfig} {stamp : Stamp}
    (h : (openFile disk config stamp).result = .ok a) : a.Coherent := by
  refine good_of_openFile (fun a name value coherent => ?_) h fun c opened => ?_
  · have set : (Mutation.setAttribute .root name value).isAimed a.tree := rfl
    refine ends_onContainer.2 ((Mutation.ends_run_keeps coherent.ready set).mono ?_
      fun _ _ _ => trivial)
    rintro _ m ⟨ready, keeps⟩
    exact ⟨ready, fun path id kept => keeps.denoted? (coherent.handles path id kept)⟩
  · exact ⟨ready_of_openFile opened, fun path id kept => by cases kept⟩

/-- Whoever shares an archive leaves it open and sound, and right about what paths denote. -/
theorem InUse.coherent (inUse : a.InUse) : a.Coherent := by
  induction inUse with
  | opened h => exact coherent_of_openFile h
  | changed _ aimed ih =>
    obtain ⟨ready, keeps⟩ := (Mutation.ends_run_keeps ih.ready aimed).state
    exact ⟨ready, fun path id kept => keeps.denoted? (ih.handles path id kept)⟩
  | remembered _ denotes ih =>
    refine ⟨ih.ready, fun path id kept => ?_⟩
    rcases Table.eq_or_get?_of_insert kept with ⟨rfl, rfl⟩ | old
    · exact Tree.denoted?_of_open denotes
    · exact ih.handles path id old

end Archive
end StudyArchive
