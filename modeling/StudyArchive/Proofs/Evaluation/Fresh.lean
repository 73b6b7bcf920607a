import StudyArchive.Evaluation.Store
import StudyArchive.Proofs.Archive.Throughout
import StudyArchive.Proofs.Evaluation.Building
/-
# Starting over

An archive that was just started over holds the root group and its attributes, and no other object
(`Archive.bare_of_openFile`); so it is laid out for evaluations, whichever will come.  That is so
throughout its log (`Archive.throughout_of_openFile`).
-/

namespace StudyArchive

/-- A tree with the root group and nothing else. -/
structure Tree.IsBare (t : Tree) : Prop where
  top : ∃ attributes, t.nodes.get? .root = some (.group attributes)
  rest : ∀ q, q ≠ Path.root → t.nodes.get? q = none

theorem Tree.isBare_empty : Tree.empty.IsBare where
  top := ⟨∅, SortedMap.get?_insert_self ..⟩
  rest _ apart := SortedMap.get?_insert_of_ne _ _ (Ne.symm apart)

/-- A tree is laid out for evaluations, whichever will come, as long as there are none. -/
theorem Tree.IsBare.isLaidOut {t : Tree} (bare : t.IsBare) : t.IsLaidOut where
  links path target node := by
    by_cases top : path = .root
    · obtain ⟨attributes, group⟩ := bare.top
      rw [top] at node
      cases group.symm.trans node
    · cases (bare.rest path top).symm.trans node
  parts root _ part node there := by
    cases (bare.rest _ (part.path_ne_root root)).symm.trans there

/-- A container that holds the root group and nothing else. -/
structure Mounted.Bare (m : Mounted) : Prop where
  ready : m.Ready
  tree : m.container.tree.IsBare

namespace Archive

variable {a a' : Archive}

/-- An archive that was led to from another one by attributes of the root. -/
structure Described (a a' : Archive) : Prop where
  bare : a'.mounted.Bare
  handles : a'.handles = a.handles
  way : Passes (fun b => b.tree.IsBare) a a'

theorem Described.ends_setAttribute (h : Described a a') (name : String) (value : AttrValue) :
    Ends (setAttribute .root name value) a' (fun _ => Described a) (fun _ _ => True) := by
  obtain ⟨attributes, top⟩ := h.bare.tree.top
  obtain ⟨w, isOpen⟩ := h.bare.ready.isOpen
  have sets : (Mutation.setAttribute .root name value).isProper a'.tree := rfl
  refine ends_onContainer.2 (((Container.ends_setAttribute_root h.bare.ready top name value).and
    (Mutation.ends_run h.bare.ready.sound isOpen sets)).mono ?_ fun _ _ _ => trivial)
  rintro _ m ⟨⟨ready, nodes⟩, recorded⟩
  have bare : m.container.tree.IsBare := by
    refine ⟨⟨attributes.insert name value, ?_⟩, fun q apart => ?_⟩
    · rw [nodes, SortedMap.get?_insert_self]
    · rw [nodes, SortedMap.get?_insert_of_ne _ _ (Ne.symm apart), h.bare.tree.rest q apart]
  exact ⟨⟨ready, bare⟩, h.handles, .step h.way recorded bare⟩

section
variable {disk : Disk} {config : StorageConfig} {stamp : Stamp} (mode : config.mode = .truncate)
  (opened : (openFile disk config stamp).result = .ok a)

include mode opened

/-- An archive that was just started over comes from an empty log. -/
theorem exists_described_of_openFile : ∃ (c : Container) (b : Archive),
    (Container.openFile disk config stamp).result = .ok c ∧
      b.mounted = ⟨(Container.openFile disk config stamp).disk, c⟩ ∧ b.mounted.Bare ∧
      b.handles = ∅ ∧ b.mounted.Throughout [] Tree.IsBare ∧ Described b a := by
  unfold openFile at opened
  simp only at opened
  split at opened
  · cases opened
  · next c made =>
    obtain ⟨w, logged, -, created⟩ := Logged.of_create mode made
    have tree : c.tree = Tree.empty := (Except.ok.inj logged.replayed).symm
    let b : Archive := ⟨⟨(Container.openFile disk config stamp).disk, c⟩, ∅, config.chunkBytes⟩
    have bare : b.mounted.Bare := by
      refine ⟨⟨logged.sound, w, logged.isOpen⟩, ?_⟩
      show c.tree.IsBare
      rw [tree]
      exact Tree.isBare_empty
    have same : Described b b := ⟨bare, rfl, .refl⟩
    have described := ends_describeRoot (fun _ name value h => h.ends_setAttribute name value)
      same config c.header stamp
    refine ⟨c, b, made, rfl, bare, rfl,
      ⟨w, [], logged, List.prefix_rfl, fun first _ front t replayed => ?_⟩, ?_⟩
    · rw [List.prefix_nil.1 front] at replayed
      cases replayed
      exact Tree.isBare_empty
    · rw [if_pos created] at opened
      split at opened
      · next a' ran =>
        cases opened
        exact described.good_of_eq ran
      · cases opened

/-- An archive that was just started over holds the root group and nothing else. -/
theorem bare_of_openFile : a.mounted.Bare ∧ a.handles = ∅ := by
  obtain ⟨-, b, -, -, -, handles, -, described⟩ := exists_described_of_openFile mode opened
  exact ⟨described.bare, described.handles.trans handles⟩

/-- Nor does its log lead to anything else on the way. -/
theorem throughout_of_openFile : a.mounted.Throughout [] Tree.IsBare := by
  obtain ⟨-, b, -, -, -, -, throughout, described⟩ := exists_described_of_openFile mode opened
  exact described.way.throughout throughout fun _ bare => bare

end

end Archive

/-- A store over an archive that was just started over. -/
structure Recording.Fresh (r : Recording) : Prop where
  opened : ∃ disk config stamp, config.mode = .truncate ∧
    (Archive.openFile disk config stamp).result = .ok r.archive
  producers : r.store.producers = ∅
  slots : r.store.slots = ∅

theorem Recording.Fresh.bare {r : Recording} (fresh : r.Fresh) :
    r.archive.mounted.Bare ∧ r.archive.handles = ∅ := by
  obtain ⟨disk, config, stamp, mode, opened⟩ := fresh.opened
  exact Archive.bare_of_openFile mode opened

theorem Recording.Fresh.throughout {r : Recording} (fresh : r.Fresh) :
    r.archive.mounted.Throughout [] Tree.IsBare := by
  obtain ⟨disk, config, stamp, mode, opened⟩ := fresh.opened
  exact Archive.throughout_of_openFile mode opened

theorem Recording.Fresh.laidOut {r : Recording} (fresh : r.Fresh) : r.archive.LaidOut := by
  obtain ⟨bare, handles⟩ := fresh.bare
  exact Archive.laidOut_of_tree (Archive.sound_of_ready bare.ready handles) bare.tree.isLaidOut

/-- A store over a new archive on an empty disk. -/
def Recording.started (store : EvaluationStore) : Option Recording :=
  (Archive.openFile default {} default).result.toOption.map fun a => ⟨a, store, []⟩

theorem Recording.fresh_of_started {store : EvaluationStore} {r : Recording}
    (producers : store.producers = ∅) (slots : store.slots = ∅) (h : started store = some r) :
    r.Fresh := by
  obtain ⟨a, opened, rfl⟩ := Option.map_eq_some_iff.1 h
  exact ⟨⟨default, {}, default, rfl, eq_ok_of_toOption opened⟩, producers, slots⟩

theorem Recording.Fresh.absent {r : Recording} (fresh : r.Fresh) (root : Path)
    (part : EvaluationPart) : r.archive.at? (part.path root) = none :=
  Tree.at?_of_absent (fresh.bare.1.tree.rest _ (part.path_ne_root root))

end StudyArchive
