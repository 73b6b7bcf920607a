import StudyArchive.Proofs.Container.Reached
/-
# Changes made in place

`Container.commit` builds a new tree and puts it in the place of the old one.  Memory is changed
piece by piece: groups on the way to a new node are made one after the other, and nobody takes them
away again if one of them cannot be made.  Here the same requests are run in that way
(`Mutation.inPlace`), and on a tree that is rooted nothing shows of the difference
(`Mutation.inPlace_eq_run`).

The reason is that whatever is in the way of a group has groups above it
(`Tree.Rooted.isGroup_above`), so the way down to it is there already and nothing was made before it
was met; and once the first group was made there is nothing further down that could be in the way.
So a request that is refused, of a container reached in any way, leaves all as it was
(`Mutation.refused_in_place`).
-/

namespace StudyArchive

namespace Tree

variable {t t' : Tree}

/-! ## A tree changed piece by piece

The same steps as `Tree.apply`, as an action on a tree: what was done before an error stays done. -/

/-- A step that changes a tree and may fail half-way. -/
abbrev Step := EStateM StorageError Tree

/-- Make groups of the paths from `prior` down through further segments, one by one. -/
def makeGroups (goal prior : Path) : List String → Step Unit
  | [] => pure ()
  | segment :: rest => do
    let path := prior.join segment
    match (← get).nodes.get? path with
    | some (.group _) => makeGroups goal path rest
    | some other => throw (.groupBlocked goal path other.kind)
    | none =>
      modify (·.putNode path (.group ∅))
      makeGroups goal path rest

/-- Make groups of the paths above a path. -/
def makeParent (path : Path) : Step Unit :=
  match path.parent? with
  | some parent => makeGroups parent .root parent.segments
  | none => pure ()

/-- Make a dataset, the groups above it first. -/
def makeDataset (d : Dataset) : Step Unit := do
  if (← get).nodes.contains d.path then
    throw (.alreadyExists d.path "create_dataset")
  if d.extensible ∧ d.dims = [] then
    throw (.shapeMismatch d.path "create_dataset" "rank >= 1 for an extensible dataset" "rank 0")
  makeParent d.path
  modify fun t =>
    { t.putNode d.path (.dataset t.datasets.length) with datasets := t.datasets ++ [d] }

/-- Make a soft link, the groups above it first. -/
def makeLink (link target : Path) : Step Unit := do
  if (← get).nodes.contains link then
    throw (.alreadyExists link "create_soft_link")
  makeParent link
  modify (·.putNode link (.link target))

/-- Apply a record piece by piece.  Those that make no node check all that they ask for and then
change one thing. -/
def applyInPlace (file : String) : Record → Step Unit
  | .createGroup path => makeGroups path .root path.segments
  | .createDataset path type dims extensible chunkRows fill =>
    makeDataset (.new path type dims extensible chunkRows fill)
  | .softLink link target => makeLink link target
  | r => do set (← liftExcept ((← get).apply file r))

/-- Write values over a selection of a dataset. -/
def writeInPlace (id : DatasetId) (operation : String) (s : Selection) (values : List Datum) :
    Step Unit := do
  let t ← get
  set (t.updateDataset id (← liftExcept ((t.dataset id).write operation s values)))

/-! ## Nothing is made in vain

Groups are made from the top down.  In a rooted tree a step can only be refused before the first
of them was made. -/

/-- Above every node there are groups, up to the root. -/
theorem Rooted.isGroup_above (rooted : t.Rooted) {path above : Path} {node : Node}
    (found : t.nodes.get? path = some node) (on : above.segments <+: path.segments)
    (other : above ≠ path) : t.IsGroup above := by
  obtain ⟨n, length⟩ : ∃ n, path.segments.length = n := ⟨_, rfl⟩
  induction n generalizing path node with
  | zero =>
    have none : path.segments = [] := List.eq_nil_of_length_eq_zero length
    rw [none, List.prefix_nil] at on
    exact absurd (Path.ext_segments (on.trans none.symm)) other
  | succ n ih =>
    have below : path ≠ .root := by
      rintro rfl
      cases length
    obtain ⟨parent, isParent⟩ := Path.exists_parent below
    obtain ⟨attributes, group⟩ := rooted.parents found isParent
    rcases Path.eq_or_prefix_of_parent? isParent on with same | on
    · exact absurd same other
    · by_cases direct : above = parent
      · rw [direct]
        exact ⟨attributes, group⟩
      · refine ih group on direct ?_
        rw [(Path.parent?_eq_some.1 isParent).2, List.length_dropLast, length]
        rfl

/-- A step that does to a tree what a function makes of it, and that leaves it alone where the
function refuses. -/
def Builds (step : Step Unit) (t : Tree) (made : Except StorageError Tree) : Prop :=
  Ends step t (fun _ t' => made = .ok t') (fun e t' => t' = t ∧ made = .error e)

theorem builds_get {step : Tree → Step Unit} {made : Except StorageError Tree} :
    Builds (get >>= step) t made ↔ Builds (step t) t made := by
  unfold Builds
  rw [ends_bind, ends_get]

/-- A node with nothing below it has nothing below it when it is put. -/
theorem free_below_putNode {path : Path} (node : Node)
    (free : ∀ below, path.segments <+: below.segments → below ≠ path → t.nodes.get? below = none) :
    ∀ below, path.segments <+: below.segments → below ≠ path →
      (t.putNode path node).nodes.get? below = none := by
  intro below on other
  rw [get?_putNode, if_neg (Ne.symm other)]
  exact free below on other

/-- Where there is nothing below, all groups can be made. -/
theorem ends_makeGroups_of_free (goal : Path) {prior : Path} {segments : List String}
    (ok : ∀ s ∈ segments, Path.IsSegment s)
    (free : ∀ path, prior.segments <+: path.segments → path ≠ prior → t.nodes.get? path = none) :
    Ends (makeGroups goal prior segments) t
      (fun _ t' => t.ensureGroups goal prior segments = .ok t') (fun _ _ => False) := by
  induction segments generalizing t prior with
  | nil => exact ends_pure.2 rfl
  | cons segment rest ih =>
    have name := prior.segments_join_of_isSegment (ok segment (List.mem_cons_self ..))
    have later : ∀ s ∈ rest, Path.IsSegment s := fun s mem => ok s (List.mem_cons_of_mem _ mem)
    have longer {path : Path} (on : (prior.join segment).segments <+: path.segments) :
        prior.segments <+: path.segments ∧ path ≠ prior := by
      rw [name] at on
      refine ⟨(List.prefix_append ..).trans on, ?_⟩
      rintro rfl
      have := on.length_le
      simp at this
    have here : t.nodes.get? (prior.join segment) = none := by
      obtain ⟨on, other⟩ := longer List.prefix_rfl
      exact free _ on other
    rw [makeGroups, ensureGroups]
    simp only [ends_bind, ends_get, here, ends_modify]
    refine ih later (free_below_putNode _ fun path on _ => ?_)
    obtain ⟨on, other⟩ := longer on
    exact free path on other

/-- Groups that are made one by one are all made, or none is. -/
theorem Rooted.makeGroups (rooted : t.Rooted) (goal prior : Path) {segments : List String}
    (ok : ∀ s ∈ segments, Path.IsSegment s) :
    Builds (makeGroups goal prior segments) t (t.ensureGroups goal prior segments) := by
  unfold Builds
  induction segments generalizing prior with
  | nil => exact ends_pure.2 rfl
  | cons segment rest ih =>
    have later : ∀ s ∈ rest, Path.IsSegment s := fun s mem => ok s (List.mem_cons_of_mem _ mem)
    rw [Tree.makeGroups, ensureGroups]
    cases found : t.nodes.get? (prior.join segment) with
    | some node =>
      simp only [ends_bind, ends_get, found]
      cases node with
      | group _ => exact ih _ later
      | dataset _ | link _ => exact ends_throw.2 ⟨rfl, rfl⟩
    | none =>
      -- nothing can be below a path at which there is nothing
      have free : ∀ path, (prior.join segment).segments <+: path.segments →
          path ≠ prior.join segment → t.nodes.get? path = none := by
        intro path on other
        cases there : t.nodes.get? path with
        | none => rfl
        | some node =>
          obtain ⟨attributes, group⟩ := rooted.isGroup_above there on (Ne.symm other)
          rw [found] at group
          cases group
      simp only [ends_bind, ends_get, found, ends_modify]
      exact (ends_makeGroups_of_free goal later (free_below_putNode _ free)).mono
        (fun _ _ made => made) (fun _ _ impossible => impossible.elim)

/-- Groups above a path and then a change that cannot fail. -/
theorem Rooted.makeParent (rooted : t.Rooted) (path : Path) (f : Tree → Tree) :
    Builds (do makeParent path; modify f) t (do return f (← t.ensureParent path)) := by
  have parent : Builds (Tree.makeParent path) t (t.ensureParent path) := by
    unfold Tree.makeParent ensureParent
    cases path.parent? with
    | some parent => exact rooted.makeGroups parent .root parent.segments_ok
    | none => exact ends_pure.2 rfl
  unfold Builds at parent ⊢
  simp only [ends_bind, ends_modify]
  refine parent.mono (fun _ grown made => ?_) (fun e t' refused => ?_)
  · rw [made]
    rfl
  · obtain ⟨same, refused⟩ := refused
    rw [refused]
    exact ⟨same, rfl⟩

/-- A check before a step is the same check before what is made. -/
theorem Builds.guard {c : Prop} [Decidable c] {e : StorageError} {step : Step Unit}
    {made : Except StorageError Tree} (next : Builds step t made) :
    Builds (do
      if c then
        throw e
      step) t (do
      if c then
        throw e
      made) := by
  by_cases holds : c
  · simp only [holds, if_true]
    exact ends_throw.2 ⟨rfl, rfl⟩
  · simpa only [holds, if_false] using next

theorem Rooted.makeDataset (rooted : t.Rooted) (d : Dataset) :
    Builds (makeDataset d) t (t.createDataset d) := by
  have put := rooted.makeParent d.path fun t =>
    { t.putNode d.path (.dataset t.datasets.length) with datasets := t.datasets ++ [d] }
  exact builds_get.2 (.guard (.guard put))

theorem Rooted.makeLink (rooted : t.Rooted) (link target : Path) :
    Builds (makeLink link target) t (t.createLink link target) := by
  have put := rooted.makeParent link fun t => t.putNode link (.link target)
  exact builds_get.2 (.guard put)

/-- A record that is applied piece by piece to a rooted tree is applied whole or not at all. -/
theorem Rooted.applyInPlace (rooted : t.Rooted) (file : String) (r : Record) :
    Builds (applyInPlace file r) t (t.apply file r) := by
  cases r with
  | createGroup path => exact rooted.makeGroups path .root path.segments_ok
  | createDataset path type dims extensible chunkRows fill =>
    exact rooted.makeDataset (.new path type dims extensible chunkRows fill)
  | softLink link target => exact rooted.makeLink link target
  | _ =>
    unfold Builds Tree.applyInPlace
    simp only [ends_bind, ends_get, ends_set]
    exact ends_liftExcept.2 ⟨fun _ made => made, fun _ refused => ⟨rfl, refused⟩⟩

/-- What a tree that is not rooted would be left with: a group above the dataset in the way. -/
example :
    let d : Dataset := .new (.ofText "/a/x") (.scalar .real) [0] true 4 (.real .zero)
    let t : Tree := { empty.putNode d.path (.dataset 0) with datasets := [d] }
    (stateAfter (applyInPlace "f" (.createGroup (.ofText "/a/x/y")) t)).nodes.keys.map Path.text =
      ["/", "/a", "/a/x"] := by
  decide +kernel

theorem builds_writeInPlace (t : Tree) (id : DatasetId) (operation : String) (s : Selection)
    (values : List Datum) :
    Builds (writeInPlace id operation s values) t
      ((t.dataset id).write operation s values |>.map (t.updateDataset id)) := by
  refine builds_get.2 ?_
  unfold Builds
  simp only [ends_bind, ends_set]
  refine ends_liftExcept.2 ⟨fun written granted => ?_, fun e refused => ⟨rfl, ?_⟩⟩
  · rw [granted]
    rfl
  · rw [refused]
    rfl

end Tree

/-! ## A container changed piece by piece

The tree is changed first, in place, and then the record is appended. -/

namespace Container

variable {m : Mounted} {w : LogWriter}

/-- Change the tree of a container piece by piece; what was made stays when a piece fails. -/
def changeTree (step : Tree.Step Unit) : Action Unit := fun m =>
  match step m.container.tree with
  | .ok () tree => .ok () { m with container := { m.container with tree } }
  | .error e tree => .error e { m with container := { m.container with tree } }

/-- Apply a record piece by piece and append it to the log. -/
def commitInPlace (r : Record) : Action Unit := do
  let c := (← get).container
  if c.isClosed then
    throw c.closedError
  changeTree (Tree.applyInPlace c.file r)
  append r

theorem changeTree_eq {step : Tree.Step Unit} {made : Except StorageError Tree}
    (built : Tree.Builds step m.container.tree made) :
    changeTree step m = (do setTree (← liftExcept made) : Action Unit) m := by
  unfold changeTree
  cases result : step m.container.tree with
  | ok v tree =>
    rw [built.good_of_eq result]
    rfl
  | error e tree =>
    obtain ⟨rfl, refused⟩ := built.bad_of_eq result
    rw [refused]
    rfl

theorem commitInPlace_eq (rooted : m.container.tree.Rooted) (r : Record) :
    commitInPlace r m = commit r m := by
  have change := changeTree_eq (rooted.applyInPlace m.container.file r)
  rw [commitInPlace, commit, get_bind, get_bind]
  cases closed : m.container.isClosed with
  | true =>
    simp only [if_true]
    rfl
  | false =>
    simp only [Bool.false_eq_true, if_false]
    have taken := bind_eq_of_eq (fun _ => append r) change
    rwa [bind_assoc] at taken

end Container

namespace Mutation

open Container

variable {m : Mounted} {w : LogWriter}

/-- The record that a request leads to: none if there is nothing to do, and an error if the request
is refused before there is a record. -/
def requested (c : Container) : Mutation → Except StorageError (Option Record)
  | createGroup path =>
    match c.tree.nodes.get? path with
    | some (.group _) => .ok none
    | _ => .ok (some (.createGroup path))
  | createDataset path type dims extensible chunkRows fill =>
    if fill.conforms type then
      .ok (some (.createDataset path type dims extensible chunkRows fill))
    else .error (.typeMismatch path "create_dataset" type.name fill.kind)
  | extend id extent =>
    let d := c.dataset id
    if d.extensible then .ok (some (.extend d.path extent))
    else .error (.notExtensible d.path "extend")
  | write id operation s values => do
    let d := c.dataset id
    d.checkSelection operation s
    return some (.write d.path s.start s.count (← c.payload d operation values))
  | setAttribute path name value =>
    match c.tree.resolvePath? path with
    | some target => .ok (some (.setAttribute target name value))
    | none => .error (.notFound path "set_attribute")
  | markScale id name =>
    let d := c.dataset id
    if d.scaleName = some name then .ok none else .ok (some (.markScale d.path name))
  | attachScale id scale label axis =>
    let d := c.dataset id
    let scalePath := (c.dataset scale).path
    if d.rank ≤ axis then .error (.invalidIndex d.path "attach_scale" axis d.rank)
    else if (d.scalesAt axis).any (·.scale = scalePath) then .ok none
    else .ok (some (.attachScale d.path scalePath label axis))
  | createLink link target =>
    match c.tree.nodes.get? link with
    | some node =>
      if node = .link target then .ok none else .error (.alreadyExists link "create_soft_link")
    | none => .ok (some (.softLink link target))

/-- Have the record of a request taken, if there is one. -/
def taking (take : Mutation → Record → Action Unit) (μ : Mutation) : Action Unit := do
  match ← liftExcept (μ.requested (← get).container) with
  | some r => take μ r
  | none => return

/-- Take the record of a request. -/
def take : Mutation → Record → Action Unit
  | write id operation s values, r => do
    let c := (← get).container
    let written ← liftExcept ((c.dataset id).write operation s values)
    setTree (c.tree.updateDataset id written)
    append r
  | _, r => commit r

/-- Take the record of a request piece by piece. -/
def takeInPlace : Mutation → Record → Action Unit
  | write id operation s values, r => do
    changeTree (Tree.writeInPlace id operation s values)
    append r
  | _, r => commitInPlace r

/-- Make a change piece by piece. -/
def inPlace (μ : Mutation) : Action Unit := μ.taking takeInPlace

theorem taking_eq (take : Mutation → Record → Action Unit) (μ : Mutation) (m : Mounted) :
    μ.taking take m =
      match μ.requested m.container with
      | .ok (some r) => take μ r m
      | .ok none => .ok () m
      | .error e => .error e m := by
  unfold taking
  rw [get_bind]
  cases μ.requested m.container with
  | error e => rfl
  | ok r =>
    cases r with
    | none => rfl
    | some r => rfl

theorem run_eq (μ : Mutation) (m : Mounted) : μ.run m = μ.taking take m := by
  rw [taking_eq]
  -- What is asked for is found by the checks that the change makes before its record, in their
  -- order: on each way out of them both sides have come to the same.
  cases μ with
  | createGroup path =>
    rw [run, Container.createGroup, requested, get_bind]
    cases m.container.tree.nodes.get? path with
    | none => rfl
    | some node =>
      cases node with
      | group _ => rfl
      | dataset _ => rfl
      | link _ => rfl
  | createDataset path type dims extensible chunkRows fill =>
    rw [run, Container.createDataset, requested]
    cases fill.conforms type with
    | false => rfl
    | true => exact map_bind_eq fun m' => ⟨m'.container.tree.datasets.length - 1, rfl⟩
  | extend id extent =>
    rw [run, Container.extend, requested, get_bind]
    cases (m.container.dataset id).extensible with
    | false => rfl
    | true => rfl
  | write id operation s values =>
    rw [run, Container.write, requested, get_bind]
    cases (m.container.dataset id).checkSelection operation s with
    | error e => rfl
    | ok _ =>
      cases (m.container.payload (m.container.dataset id) operation values) with
      | error e => rfl
      | ok bytes => rfl
  | setAttribute path name value =>
    rw [run, Container.setAttribute, requested, get_bind]
    cases m.container.tree.resolvePath? path with
    | none => rfl
    | some found => rfl
  | markScale id name =>
    rw [run, Container.markScale, requested, get_bind]
    by_cases named : (m.container.dataset id).scaleName = some name
    · simp only [named, if_true]
      rfl
    · simp only [named, if_false]
      rfl
  | attachScale id scale label axis =>
    rw [run, Container.attachScale, requested, map_bind, get_bind]
    by_cases beyond : (m.container.dataset id).rank ≤ axis
    · simp only [beyond, if_true]
      rfl
    · cases there : ((m.container.dataset id).scalesAt axis).any
          (·.scale = (m.container.dataset scale).path) with
      | true =>
        simp only [beyond, there, if_true, if_false]
        rfl
      | false =>
        simp only [beyond, there, Bool.false_eq_true, if_false]
        exact map_bind_eq fun _ => ⟨true, rfl⟩
  | createLink link target =>
    rw [run, Container.createLink, requested, get_bind]
    cases m.container.tree.nodes.get? link with
    | none => rfl
    | some node =>
      by_cases same : node = .link target
      · simp only [same, if_true]
        rfl
      · simp only [same, if_false]
        rfl

theorem takeInPlace_eq (rooted : m.container.tree.Rooted) (μ : Mutation) (r : Record) :
    μ.takeInPlace r m = μ.take r m := by
  cases μ with
  | write id operation s values =>
    have change := bind_eq_of_eq (fun _ => append r)
      (changeTree_eq (Tree.builds_writeInPlace m.container.tree id operation s values))
    rw [takeInPlace, take, get_bind, change, ← Container.dataset]
    cases (m.container.dataset id).write operation s values with
    | error e => rfl
    | ok written => rfl
  | _ => exact commitInPlace_eq rooted r

/-- A request that is made piece by piece ends as the request ends. -/
theorem inPlace_eq_run (rooted : m.container.tree.Rooted) (μ : Mutation) :
    μ.inPlace m = μ.run m := by
  rw [run_eq, inPlace, taking_eq, taking_eq]
  cases μ.requested m.container with
  | error e => rfl
  | ok r =>
    cases r with
    | none => rfl
    | some r => exact takeInPlace_eq rooted μ r

/-- Appending a record that has a frame to the log of an open container succeeds. -/
theorem ends_append_of_encode (isOpen : m.container.writer = some w) {r : Record} {bytes : Bytes}
    (fits : r.encode = .ok bytes) : Ends (append r) m (fun _ _ => True) (fun _ _ => False) := by
  refine ends_of_forall (fun _ _ _ => trivial) (fun e m' h => ?_)
  unfold append LogWriter.append at h
  rw [isOpen, fits] at h
  cases h

/-- A record that has a frame is taken, or the container stays as it is. -/
theorem ends_take (isOpen : m.container.writer = some w) (μ : Mutation) {r : Record}
    {bytes : Bytes} (fits : r.encode = .ok bytes) :
    Ends (μ.take r) m (fun _ _ => True) (fun _ m' => m' = m) := by
  have closed : m.container.isClosed = false := by simp [isClosed, isOpen]
  have appended (tree : Tree) :
      Ends (append r) { m with container := { m.container with tree } } (fun _ _ => True)
        (fun _ m' => m' = m) := by
    have opened : ({ m with container := { m.container with tree } } : Mounted).container.writer =
      some w := isOpen
    exact (ends_append_of_encode opened fits).mono (fun _ _ _ => trivial) fun _ _ => False.elim
  cases μ with
  | write id operation s values =>
    unfold take
    simp only [ends_bind, ends_get, ends_setTree]
    exact ends_liftExcept.2 ⟨fun written _ => appended _, fun _ _ => rfl⟩
  | _ =>
    unfold take commit
    simp only [ends_bind, ends_get, closed, Bool.false_eq_true, if_false, ends_setTree]
    exact ends_liftExcept.2 ⟨fun tree _ => appended tree, fun _ _ => rfl⟩

/-- A request that fails leaves everything as it was: the nodes, without the groups that it would
have made on the way, the datasets with their attributes and scales, the log's records and the disk.
This holds of every request of an open container that was reached in any way, and whether it is made
piece by piece or not, if the record that it leads to, should there be one, has a frame. -/
theorem refused_in_place (reached : Reached m) (isOpen : m.container.isClosed = false)
    (μ : Mutation)
    (fits : ∀ r, μ.requested m.container = .ok (some r) → ∃ bytes, r.encode = .ok bytes) :
    μ.inPlace m = μ.run m ∧ ∀ e m', μ.inPlace m = .error e m' → m' = m := by
  have same : μ.inPlace m = μ.run m := inPlace_eq_run reached.rooted μ
  refine ⟨same, fun e m' refused => ?_⟩
  rw [same, run_eq, taking_eq] at refused
  cases request : μ.requested m.container with
  | error e' =>
    rw [request] at refused
    cases refused
    rfl
  | ok r =>
    rw [request] at refused
    cases r with
    | none => cases refused
    | some r =>
      obtain ⟨bytes, encoded⟩ := fits r request
      obtain ⟨w, isOpen⟩ : ∃ w, m.container.writer = some w :=
        Option.isSome_iff_exists.1 (by simpa [isClosed] using isOpen)
      exact (ends_take isOpen μ encoded).bad_of_eq refused

/-- A column two groups below another column. -/
def blockedColumn : Mutation :=
  .createDataset (.ofText "/a/x/p/q/r") (.scalar .real) [0] true 4 (.real .zero)

theorem refused_in_place_of_columns : ∃ c, (openFile default {} default).result = .ok c ∧
    ∃ m e m', m = afterAll ⟨(openFile default {} default).disk, c⟩ scaledColumns ∧
      m.container.isClosed = false ∧ blockedColumn.inPlace m = .error e m' ∧
      blockedColumn.inPlace m = blockedColumn.run m ∧ m' = m := by
  have ready : (openFile default {} default).result.toOption.any (fun c =>
      let m := afterAll ⟨(openFile default {} default).disk, c⟩ scaledColumns
      !m.container.isClosed && (okState? (blockedColumn.inPlace m)).isNone) := by
    decide +kernel
  obtain ⟨c, opened, ready⟩ := (Option.any_eq_true ..).1 ready
  have opened := eq_ok_of_toOption opened
  simp only [Bool.and_eq_true, Bool.not_eq_true', Option.isNone_iff_eq_none] at ready
  obtain ⟨isOpen, fails⟩ := ready
  obtain ⟨e, m', fails⟩ := exists_error_of_okState? fails
  have reached := (Reached.opened opened).changedAll scaledColumns
  have fits : ∀ r, blockedColumn.requested
      (afterAll ⟨(openFile default {} default).disk, c⟩ scaledColumns).container = .ok (some r) →
      ∃ bytes, r.encode = .ok bytes := by
    intro r request
    have record : (.ok (some (.createDataset (.ofText "/a/x/p/q/r") (.scalar .real) [0] true 4
        (.real .zero))) : Except StorageError (Option Record)) = .ok (some r) := request
    cases record
    have encodes : (Record.createDataset (.ofText "/a/x/p/q/r") (.scalar .real) [0] true 4
        (.real .zero)).encode.toOption.isSome := by
      decide +kernel
    obtain ⟨bytes, encodes⟩ := Option.isSome_iff_exists.1 encodes
    exact ⟨bytes, eq_ok_of_toOption encodes⟩
  obtain ⟨same, kept⟩ := refused_in_place reached isOpen blockedColumn fits
  exact ⟨c, opened, _, e, m', rfl, isOpen, fails, same, kept e m' fails⟩

end Mutation
end StudyArchive
