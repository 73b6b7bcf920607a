import StudyArchive.Proofs.Container.Listing
import StudyArchive.Proofs.Container.Recovery
/-
# Containers that can be reached

A container is reached by opening a file, whatever log is in it, and then by any requests at all:
changes that are granted or refused, flushes, closing, changes after closing.  Its tree is rooted
all the while (`Container.Reached.rooted`), because a request does nothing to the tree that it
found but one record or one write (`Mutation.tree_after`).
`Container.namespace_of_reached` says what that means for the nodes, the datasets and the listings.
-/

namespace StudyArchive

open Container

variable {m : Mounted}

/-! ## The tree after a request

A request leaves the tree as it was, applies one record to it, or writes to one dataset. -/

namespace Container

theorem ends_append_tree (r : Record) :
    Ends (append r) m (fun _ m' => m'.container.tree = m.container.tree)
      (fun _ m' => m'.container.tree = m.container.tree) := by
  refine ends_of_forall (fun _ m' h => ?_) (fun e m' h => ?_) <;> unfold append at h <;>
    split at h
  · cases h
  · split at h <;> cases h
    rfl
  · cases h
    rfl
  · split at h <;> cases h
    rfl

/-- What is true of the tree from before and of the one that a record leads to is true of the one
that its commit leaves. -/
theorem ends_commit_tree {P : Tree → Prop} {r : Record} (here : P m.container.tree)
    (recorded : ∀ t, m.container.tree.apply m.container.file r = .ok t → P t) :
    Ends (commit r) m (fun _ m' => P m'.container.tree) (fun _ m' => P m'.container.tree) := by
  unfold commit
  cases closed : m.container.isClosed with
  | true =>
    simp only [ends_bind, ends_get, closed, if_true, ends_throw]
    exact here
  | false =>
    simp only [ends_bind, ends_get, closed, Bool.false_eq_true, if_false, ends_setTree]
    refine ends_liftExcept.2 ⟨fun tree applied => ?_, fun _ _ => here⟩
    have taken {m' : Mounted} (same : m'.container.tree = tree) : P m'.container.tree := by
      rw [same]
      exact recorded tree applied
    exact (ends_append_tree r).mono (fun _ _ => taken) (fun _ _ => taken)

/-- Only values of a dataset's type have a payload. -/
theorem conforms_of_payload {c : Container} {d : Dataset} {operation : String}
    {values : List Datum} {bytes : Bytes} (h : c.payload d operation values = .ok bytes) :
    ∀ v ∈ values, v.conforms d.type := by
  induction values generalizing bytes with
  | nil => simp
  | cons v rest ih =>
    unfold payload at h
    split at h
    · next fits =>
      obtain ⟨first, -, h⟩ := exists_of_bind_eq_ok h
      obtain ⟨more, encoded, -⟩ := exists_of_bind_eq_ok h
      intro w mem
      rcases List.mem_cons.1 mem with rfl | mem
      · exact fits
      · exact ih encoded w mem
    · cases h

end Container

/-- All that a change can do to a tree, whether it is granted or refused: nothing, a record whose
fill is of its type, or a write of values that are of the dataset's type. -/
theorem Mutation.tree_after {P : Tree → Prop} (here : P m.container.tree)
    (recorded : ∀ r t, r.isFilled → m.container.tree.apply m.container.file r = .ok t → P t)
    (written : ∀ id operation s values d',
      (∀ v ∈ values, v.conforms (m.container.dataset id).type) →
      (m.container.dataset id).write operation s values = .ok d' →
      P (m.container.tree.updateDataset id d')) (μ : Mutation) :
    P (after m μ).container.tree := by
  refine (?_ : Ends μ.run m (fun _ m' => P m'.container.tree)
    fun _ m' => P m'.container.tree).state
  cases eq : μ.isWrite with
  | false =>
    exact ends_run_of_commit eq here (fun _ _ => here) fun r ⟨filled, _⟩ _ =>
      ends_commit_tree here fun t => recorded r t filled
  | true =>
    obtain ⟨id, operation, s, values, rfl⟩ := exists_of_isWrite eq
    refine ends_write_of (fun _ _ => here) fun payload d' _ paid accepted => ?_
    have taken {m' : Mounted}
        (same : m'.container.tree = m.container.tree.updateDataset id d') :
        P m'.container.tree := by
      rw [same]
      exact written id operation s values d' (conforms_of_payload paid) accepted
    exact (ends_append_tree _).mono (fun _ _ => taken) (fun _ _ => taken)

/-- A rooted tree stays rooted, whether or not the dataset is there that a write is for. -/
theorem Mutation.rooted_after (rooted : m.container.tree.Rooted) (μ : Mutation) :
    (after m μ).container.tree.Rooted := by
  refine tree_after rooted (fun r t _ applied => rooted.apply applied) ?_ μ
  intro id operation s values d' _ accepted
  rcases Nat.lt_or_ge id m.container.tree.datasets.length with known | unknown
  · have before := rooted.each (Tree.getElem?_of_lt known)
    have scales := rooted.scales (Tree.getElem?_of_lt known)
    have sound := before.write accepted
    obtain ⟨-, -, rfl⟩ := Dataset.write_eq_ok accepted
    obtain ⟨chunks, eq⟩ := Dataset.setCells_eq (m.container.dataset id) s.cells values
    rw [eq] at sound ⊢
    refine rooted.updateDataset (rooted.toSound.updateDataset known rfl sound) ?_
    exact scales.mono (Tree.widens_of_nodes rfl) fun _ => rfl
  · have same : m.container.tree.updateDataset id d' = m.container.tree := by
      rw [Tree.updateDataset, List.set_eq_of_length_le unknown]
    rw [same]
    exact rooted

namespace Container

/-! ## Requests one after the other -/

/-- A container that was opened, and of which anything was asked since, in any order; the disk may
have been changed by others, too. -/
inductive Reached : Mounted → Prop
  | opened {disk : Disk} {config : StorageConfig} {stamp : Stamp} {c : Container}
      (h : (openFile disk config stamp).result = .ok c) :
      Reached ⟨(openFile disk config stamp).disk, c⟩
  | changed {m : Mounted} (h : Reached m) (μ : Mutation) : Reached (Mutation.after m μ)
  | flushed {m : Mounted} (h : Reached m) : Reached (stateAfter (flush m))
  | closed {m : Mounted} (h : Reached m) : Reached (close m)
  | disturbed {m : Mounted} (h : Reached m) (disk : Disk) : Reached ⟨disk, m.container⟩

theorem Reached.changedAll (reached : Reached m) (μs : List Mutation) :
    Reached (Mutation.afterAll m μs) := by
  induction μs generalizing m with
  | nil => exact reached
  | cons μ μs ih => exact ih (reached.changed μ)

theorem tree_flush (m : Mounted) : (stateAfter (flush m)).container.tree = m.container.tree := by
  unfold flush
  split <;> rfl

theorem tree_close (m : Mounted) : (close m).container.tree = m.container.tree := by
  unfold close
  split <;> rfl

theorem Reached.rooted (reached : Reached m) : m.container.tree.Rooted := by
  induction reached with
  | opened h =>
    obtain ⟨w, frames, logged, -⟩ := Logged.of_openFile h
    exact Tree.rooted_empty.replay logged.replayed
  | changed _ μ ih => exact Mutation.rooted_after ih μ
  | @flushed m _ ih => rwa [tree_flush]
  | @closed m _ ih => rwa [tree_close]
  | disturbed _ _ ih => exact ih

/-- The namespace of a container that was reached in any way.  The root is a group, and above every
other node there is one.  Nodes and places in the list of datasets name each other, one for one, by
the datasets' own paths.  A dataset that grows has an axis; every axis has a list of scales, all of
them datasets that are there and none of them twice.  The listings of the groups have every node but
the root once, and each of them has its names in order. -/
theorem namespace_of_reached (reached : Reached m) :
    let t := m.container.tree
    t.IsGroup .root ∧
    (∀ path node, t.nodes.get? path = some node → path ≠ .root →
      ∃ parent, path.parent? = some parent ∧ t.IsGroup parent) ∧
    (∀ path (id : DatasetId), t.nodes.get? path = some (.dataset id) ↔
      ∃ d, t.datasets[id]? = some d ∧ d.path = path) ∧
    (∀ d ∈ t.datasets, (d.extensible = true → 1 ≤ d.rank) ∧ d.scales.length = d.rank ∧
      ∀ axis, (∀ s ∈ d.scalesAt axis, t.IsDataset s.scale) ∧
        ((d.scalesAt axis).map (·.scale)).Nodup) ∧
    (t.groups.flatMap t.listed).Perm
      ((t.nodes.entries.filter fun e => e.1 ≠ .root).map fun e => (e.1, e.2.kind)) ∧
    ∀ group, t.IsGroup group →
      ∃ names, t.list group = .ok names ∧ names.Pairwise fun a b => compare a.1 b.1 = .lt := by
  intro t
  have rooted : t.Rooted := reached.rooted
  refine ⟨rooted.root, ?_, ?_, ?_, rooted.perm_listed, fun group => Tree.list_ascending⟩
  · intro path node found below
    obtain ⟨parent, above⟩ := Path.exists_parent below
    exact ⟨parent, above, rooted.parents found above⟩
  · intro path id
    constructor
    · exact rooted.named
    · rintro ⟨d, there, rfl⟩
      exact rooted.placed there
  · intro d mem
    obtain ⟨id, there⟩ := List.mem_iff_getElem?.1 mem
    have sound := rooted.each there
    have scales := rooted.scales there
    refine ⟨fun grows => ?_, sound.scales_length, fun axis => ⟨fun s => scales.there, ?_⟩⟩
    · exact List.length_pos_iff.2 (sound.axis_of_extensible grows)
    · exact scales.once axis

/-- Two columns below groups that were made on the way, one of them attached to the other as a
scale, twice; a link to nowhere; and a group that is refused, because a column is in its way. -/
def scaledColumns : List Mutation :=
  [.createDataset (.ofText "/a/x") (.scalar .real) [0] true 4 (.real .zero),
    .createDataset (.ofText "/s/t/x") (.scalar .int64) [0] true 4 (.int 0),
    .attachScale 0 1 "ids" 0, .attachScale 0 1 "ids" 0,
    .createLink (.ofText "/b") (.ofText "/c"), .createGroup (.ofText "/a/x/y")]

theorem namespace_of_reached_columns : ∃ c, (openFile default {} default).result = .ok c ∧
    ∃ t, t = (close (Mutation.afterAll ⟨(openFile default {} default).disk, c⟩
        scaledColumns)).container.tree ∧
      t.groups.map Path.text = ["/", "/a", "/s", "/s/t"] ∧
      ∀ group ∈ t.groups, ∃ names, t.list group = .ok names ∧
        names.Pairwise fun a b => compare a.1 b.1 = .lt := by
  have ready : (openFile default {} default).result.toOption.any (fun c =>
      (close (Mutation.afterAll ⟨(openFile default {} default).disk, c⟩
        scaledColumns)).container.tree.groups.map Path.text = ["/", "/a", "/s", "/s/t"]) := by
    decide +kernel
  obtain ⟨c, opened, groups⟩ := (Option.any_eq_true ..).1 ready
  have opened := eq_ok_of_toOption opened
  refine ⟨c, opened, _, rfl, of_decide_eq_true groups, fun group mem => ?_⟩
  have reached := ((Reached.opened opened).changedAll scaledColumns).closed
  exact (namespace_of_reached reached).2.2.2.2.2 group (Tree.mem_groups.1 mem)

end Container
end StudyArchive
