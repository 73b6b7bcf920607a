import StudyArchive.Proofs.Container.Sound
/-
# The namespace of a tree

The nodes of a tree hang together: the root is a group, and above every other node there is a group.
Datasets and their scales lie in the namespace, too: a scale is attached under the path of a dataset
that is there, and to an axis once.  `Tree.Rooted` says so on top of `Tree.Sound`, the empty tree is
rooted, and every record keeps a tree rooted (`Tree.Rooted.apply`).

What records do to the nodes is little: they add some, below groups, and take none away
(`Tree.Widens`).
-/

namespace StudyArchive

namespace Tree

variable {t t' t'' : Tree}

/-! ## Nodes that stay -/

/-- There is a group at a path. -/
def IsGroup (t : Tree) (path : Path) : Prop :=
  ∃ attributes, t.nodes.get? path = some (.group attributes)

/-- There is a dataset at a path. -/
def IsDataset (t : Tree) (path : Path) : Prop := ∃ id, t.nodes.get? path = some (.dataset id)

/-- A tree with further nodes, each of them below a group. -/
structure Widens (t t' : Tree) : Prop where
  groups : ∀ {path}, t.IsGroup path → t'.IsGroup path
  datasets : ∀ {path}, t.IsDataset path → t'.IsDataset path
  above : ∀ {path node parent}, t'.nodes.get? path = some node → path.parent? = some parent →
    t.nodes.get? path ≠ none ∨ t'.IsGroup parent

theorem widens_of_nodes (same : t'.nodes = t.nodes) : Widens t t' where
  groups := by simp [IsGroup, same]
  datasets := by simp [IsDataset, same]
  above := by
    intro path node parent found _
    rw [same] at found
    simp [found]

theorem Widens.trans (h : Widens t t') (h' : Widens t' t'') : Widens t t'' where
  groups group := h'.groups (h.groups group)
  datasets dataset := h'.datasets (h.datasets dataset)
  above found parent := by
    rcases h'.above found parent with there | group
    · obtain ⟨node, there⟩ := Option.ne_none_iff_exists'.1 there
      exact (h.above there parent).imp id h'.groups
    · exact .inr group

theorem widens_putNode {path : Path} {node : Node} (free : t.nodes.get? path = none)
    (below : ∀ parent, path.parent? = some parent → t.IsGroup parent) :
    Widens t (t.putNode path node) := by
  have keeps {other : Path} {old : Node} (found : t.nodes.get? other = some old) :
      (t.putNode path node).nodes.get? other = some old := by
    rw [get?_putNode, if_neg]
    · exact found
    · rintro rfl
      rw [free] at found
      cases found
  refine ⟨fun ⟨_, found⟩ => ⟨_, keeps found⟩, fun ⟨_, found⟩ => ⟨_, keeps found⟩, ?_⟩
  intro other new parent found isParent
  rw [get?_putNode] at found
  split at found
  · next same =>
    subst same
    obtain ⟨attributes, group⟩ := below parent isParent
    exact .inr ⟨attributes, keeps group⟩
  · left
    rw [found]
    exact Option.some_ne_none _

theorem widens_putGroup {path : Path} (group : t.IsGroup path)
    (attributes : SortedMap String AttrValue) :
    Widens t (t.putNode path (.group attributes)) := by
  obtain ⟨old, here⟩ := group
  refine ⟨?_, ?_, ?_⟩
  · rintro other ⟨before, found⟩
    by_cases same : path = other
    · exact ⟨attributes, by rw [get?_putNode, if_pos same]⟩
    · exact ⟨before, by rw [get?_putNode, if_neg same, found]⟩
  · rintro other ⟨id, found⟩
    refine ⟨id, ?_⟩
    rw [get?_putNode, if_neg]
    · exact found
    · rintro rfl
      rw [here] at found
      cases found
  · intro other node parent found _
    left
    rw [get?_putNode] at found
    split at found
    · next same => simp [← same, here]
    · simp [found]

/-! ## Groups made on the way

Going down from the root, groups are put where nothing was, each below a group. -/

theorem Grown.isGroup {goal : List String} (h : Grown goal t t') {path : Path}
    (group : t.IsGroup path) : t'.IsGroup path := by
  obtain ⟨attributes, found⟩ := group
  rcases h.nodes path with same | ⟨absent, -⟩
  · exact ⟨attributes, same.trans found⟩
  · rw [found] at absent
    cases absent

/-- After groups were made from one path down to another, all the paths between are groups. -/
theorem isGroup_of_ensureGroups {goal prior : Path} {segments : List String}
    (ok : ∀ s ∈ segments, Path.IsSegment s) (h : t.ensureGroups goal prior segments = .ok t')
    {path : Path} (on : path.segments <+: prior.segments ++ segments)
    (below : prior.segments.length < path.segments.length) : t'.IsGroup path := by
  induction segments generalizing t prior with
  | nil =>
    have := on.length_le
    rw [List.append_nil] at this
    omega
  | cons segment rest ih =>
    have name := prior.segments_join_of_isSegment (ok segment (List.mem_cons_self ..))
    have later : ∀ s ∈ rest, Path.IsSegment s := fun s mem => ok s (List.mem_cons_of_mem _ mem)
    rw [Path.segments_append_cons (ok segment (List.mem_cons_self ..))] at on
    rw [ensureGroups] at h
    have step {u : Tree} (group : u.IsGroup (prior.join segment))
        (go : u.ensureGroups goal (prior.join segment) rest = .ok t') : t'.IsGroup path := by
      rcases Nat.lt_or_ge (prior.join segment).segments.length path.segments.length with deep | top
      · exact ih later go on deep
      · have size : path.segments.length = (prior.join segment).segments.length := by
          rw [name, List.length_append, List.length_singleton] at top ⊢
          omega
        have same : path = prior.join segment := by
          apply Path.ext_segments
          exact (List.prefix_of_prefix_length_le on (List.prefix_append ..) top).eq_of_length size
        rw [same]
        exact (grown_of_ensureGroups later go).isGroup group
    split at h
    · next attributes found => exact step ⟨attributes, found⟩ h
    · cases h
    · exact step ⟨∅, by rw [get?_putNode, if_pos rfl]⟩ h

theorem isGroup_of_ensureGroup {goal path : Path} (h : t.ensureGroup goal = .ok t')
    (root : t.IsGroup .root) (on : path.segments <+: goal.segments) : t'.IsGroup path := by
  by_cases top : path.segments = []
  · have same : path = .root := Path.ext_segments top
    rw [same]
    exact (grown_of_ensureGroup h).isGroup root
  · exact isGroup_of_ensureGroups goal.segments_ok h on (List.length_pos_iff.2 top)

theorem widens_of_ensureGroup {goal : Path} (h : t.ensureGroup goal = .ok t')
    (root : t.IsGroup .root) : Widens t t' := by
  have grown := grown_of_ensureGroup h
  refine ⟨grown.isGroup, ?_, ?_⟩
  · rintro path ⟨id, found⟩
    rcases grown.nodes path with same | ⟨absent, -⟩
    · exact ⟨id, same.trans found⟩
    · rw [found] at absent
      cases absent
  · intro path node parent found isParent
    rcases grown.nodes path with same | ⟨-, -, on⟩
    · left
      rw [← same, found]
      exact Option.some_ne_none _
    · right
      obtain ⟨-, segments⟩ := Path.parent?_eq_some.1 isParent
      refine isGroup_of_ensureGroup h root ?_
      rw [segments]
      exact (List.dropLast_prefix _).trans on

/-- The way to a new node: groups down to its parent. -/
theorem widens_of_ensureParent {path : Path} (h : t.ensureParent path = .ok t')
    (root : t.IsGroup .root) :
    Widens t t' ∧ ∀ parent, path.parent? = some parent → t'.IsGroup parent := by
  unfold ensureParent at h
  split at h
  · next parent found =>
    refine ⟨widens_of_ensureGroup h root, fun other same => ?_⟩
    rw [found] at same
    cases same
    exact isGroup_of_ensureGroup h root List.prefix_rfl
  · next none =>
    cases h
    refine ⟨widens_of_nodes rfl, fun parent found => ?_⟩
    rw [none] at found
    cases found

/-- A path at which there is nothing, and which lies below the groups that were made, stays free. -/
theorem free_of_ensureParent {path : Path} (h : t.ensureParent path = .ok t')
    (below : path ≠ .root) (free : t.nodes.get? path = none) : t'.nodes.get? path = none := by
  rcases (grown_of_ensureParent h).nodes path with same | ⟨-, -, on⟩
  · exact same.trans free
  · have some := Path.segments_ne_nil below
    have := on.length_le
    have := List.length_pos_iff.2 some
    rw [List.length_dropLast] at *
    omega

/-! ## Rooted trees

Where scales are attached is part of the invariant, since they are named by paths. -/

/-- What the scales of a dataset satisfy on each axis. -/
structure ScalesOf (t : Tree) (d : Dataset) : Prop where
  there : ∀ {axis s}, s ∈ d.scalesAt axis → t.IsDataset s.scale
  once : ∀ axis, ((d.scalesAt axis).map (·.scale)).Nodup

/-- A tree whose nodes hang together below the root, its scales among them. -/
structure Rooted (t : Tree) : Prop extends Sound t where
  root : t.IsGroup .root
  parents : ∀ {path node parent}, t.nodes.get? path = some node → path.parent? = some parent →
    t.IsGroup parent
  scales : ∀ {id : DatasetId} {d : Dataset}, t.datasets[id]? = some d → t.ScalesOf d

theorem scalesOf_new (path : Path) (type : DataType) (dims : List Nat) (extensible : Bool)
    (chunkRows : Nat) (fill : Datum) :
    t.ScalesOf (.new path type dims extensible chunkRows fill) := by
  refine ⟨fun {axis s} mem => ?_, fun axis => ?_⟩
  · rw [Dataset.scalesAt_new] at mem
    cases mem
  · rw [Dataset.scalesAt_new]
    exact List.nodup_nil

theorem ScalesOf.mono {d d' : Dataset} (h : t.ScalesOf d) (widens : Widens t t')
    (same : ∀ axis, d'.scalesAt axis = d.scalesAt axis) : t'.ScalesOf d' := by
  refine ⟨fun {axis s} mem => ?_, fun axis => ?_⟩
  · rw [same] at mem
    exact widens.datasets (h.there mem)
  · rw [same]
    exact h.once axis

/-- A tree that was widened stays rooted if its datasets are as they should be. -/
theorem Rooted.widen (rooted : t.Rooted) (widens : Widens t t') (sound : t'.Sound)
    (scales : ∀ {id : DatasetId} {d : Dataset}, t'.datasets[id]? = some d → t'.ScalesOf d) :
    t'.Rooted where
  toSound := sound
  root := widens.groups rooted.root
  parents found isParent := by
    rcases widens.above found isParent with there | group
    · obtain ⟨node, there⟩ := Option.ne_none_iff_exists'.1 there
      exact widens.groups (rooted.parents there isParent)
    · exact group
  scales := scales

theorem Rooted.widen_nodes (rooted : t.Rooted) (widens : Widens t t') (sound : t'.Sound)
    (datasets : t'.datasets = t.datasets) : t'.Rooted :=
  rooted.widen widens sound fun found =>
    (rooted.scales (datasets ▸ found)).mono widens fun _ => rfl

theorem Rooted.updateDataset (rooted : t.Rooted) {id : DatasetId} {d : Dataset}
    (sound : (t.updateDataset id d).Sound) (scales : t.ScalesOf d) :
    (t.updateDataset id d).Rooted := by
  have widens : Widens t (t.updateDataset id d) := widens_of_nodes rfl
  refine rooted.widen widens sound fun {other found} h => ?_
  simp only [Tree.updateDataset, List.getElem?_set] at h
  split at h
  · split at h
    · cases h
      exact scales.mono widens fun _ => rfl
    · cases h
  · exact (rooted.scales h).mono widens fun _ => rfl

theorem rooted_empty : empty.Rooted where
  toSound := sound_empty
  root := ⟨∅, SortedMap.get?_insert_self ..⟩
  parents := by
    intro path node parent found isParent
    obtain ⟨below, -⟩ := Path.parent?_eq_some.1 isParent
    have none : Tree.empty.nodes.get? path = (∅ : SortedMap Path Node).get? path :=
      SortedMap.get?_insert_of_ne _ _ (Ne.symm below)
    rw [none] at found
    cases found
  scales := fun h => by cases h

end Tree

/-- Attaching a scale adds it to its axis where it is not there yet. -/
theorem Dataset.scalesAt_attached {d d' : Dataset} {axis : Nat} {s : AttachedScale}
    (h : d.attachScale axis s = .ok d') (k : Nat) :
    d'.scalesAt k = d.scalesAt k ∨
      d'.scalesAt k = d.scalesAt k ++ [s] ∧ ∀ other ∈ d.scalesAt k, other.scale ≠ s.scale := by
  have others := (scalesAt_of_attachScale h).1 k
  unfold attachScale at h
  split at h
  · cases h
  · next inside =>
    split at h
    · cases h
      exact .inl rfl
    · next absent =>
      cases h
      by_cases here : k = axis
      · subst here
        right
        constructor
        · have found := List.getElem?_eq_getElem (Nat.lt_of_not_le inside)
          simp only [scalesAt, List.getElem?_modify_eq, found]
          rfl
        · simpa using absent
      · exact .inl (others here)

namespace Tree

variable {t t' : Tree}

theorem ScalesOf.attach {d d' : Dataset} {axis : Nat} {s : AttachedScale} (h : t.ScalesOf d)
    (dataset : t.IsDataset s.scale) (attached : d.attachScale axis s = .ok d') :
    t.ScalesOf d' := by
  refine ⟨fun {k other} mem => ?_, fun k => ?_⟩
  · rcases Dataset.scalesAt_attached attached k with same | ⟨more, -⟩
    · exact h.there (same ▸ mem)
    · rw [more, List.mem_append, List.mem_singleton] at mem
      rcases mem with old | rfl
      · exact h.there old
      · exact dataset
  · rcases Dataset.scalesAt_attached attached k with same | ⟨more, fresh⟩
    · rw [same]
      exact h.once k
    · rw [more, List.map_append, List.map_singleton, List.nodup_append]
      refine ⟨h.once k, List.nodup_singleton _, ?_⟩
      intro path old last new
      obtain ⟨other, mem, rfl⟩ := List.mem_map.1 old
      rw [List.mem_singleton.1 new]
      exact fresh other mem

/-! ## Any record -/

/-- A node is put where nothing was, and the groups above it before it. -/
theorem Rooted.widens_put (rooted : t.Rooted) {path : Path} (node : Node)
    (free : t.nodes.get? path = none) (made : t.ensureParent path = .ok t') :
    Widens t (t'.putNode path node) := by
  have below : path ≠ .root := by
    rintro rfl
    obtain ⟨attributes, root⟩ := rooted.root
    rw [free] at root
    cases root
  obtain ⟨widens, above⟩ := widens_of_ensureParent made rooted.root
  exact widens.trans (widens_putNode (free_of_ensureParent made below free) above)

/-- A record that is applied keeps the tree rooted. -/
theorem Rooted.apply (rooted : t.Rooted) {file : String} {r : Record}
    (h : t.apply file r = .ok t') : t'.Rooted := by
  have sound := rooted.toSound.apply h
  cases applied_of_apply h with
  | grouped made =>
    exact rooted.widen_nodes (widens_of_ensureGroup made rooted.root) sound
      (grown_of_ensureGroup made).datasets
  | @created path type dims extensible chunkRows fill _ made =>
    obtain ⟨free, -, grown, above, groups, rfl⟩ := createDataset_eq_ok made
    have all := rooted.widens_put (.dataset t.datasets.length) free above
    refine rooted.widen (all.trans (widens_of_nodes rfl)) sound fun found => ?_
    rcases old_or_new found with old | ⟨-, rfl⟩
    · exact (rooted.scales old).mono (all.trans (widens_of_nodes rfl)) fun _ => rfl
    · exact scalesOf_new path type dims extensible chunkRows fill
  | described found => exact rooted.widen_nodes (widens_putGroup ⟨_, found⟩ _) sound rfl
  | changed node _ same =>
    -- The scales are those from before, and what they name is still there.
    refine rooted.updateDataset sound ?_
    refine (rooted.scales (getElem?_of_lt (rooted.lt_of_node node))).mono (widens_of_nodes rfl)
      fun axis => ?_
    rw [Dataset.scalesAt, Dataset.scalesAt, same]
  | attached node scaleNode attached =>
    have scaleKnown := getElem?_of_lt (rooted.lt_of_node scaleNode)
    exact rooted.updateDataset sound
      ((rooted.scales (getElem?_of_lt (rooted.lt_of_node node))).attach
        ⟨_, rooted.placed scaleKnown⟩ attached)
  | linked made =>
    obtain ⟨free, grown, above, groups, rfl⟩ := createLink_eq_ok made
    exact rooted.widen_nodes (rooted.widens_put (.link _) free above) sound groups.datasets

theorem Rooted.replay (rooted : t.Rooted) {file : String} {entries : List (Nat × Record)}
    (h : t.replay file entries = .ok t') : t'.Rooted := by
  induction entries generalizing t with
  | nil =>
    cases h
    exact rooted
  | cons entry entries ih =>
    obtain ⟨position, record⟩ := entry
    rw [Tree.replay] at h
    split at h
    · next applied => exact ih (rooted.apply applied) h
    · cases h

end Tree
end StudyArchive
