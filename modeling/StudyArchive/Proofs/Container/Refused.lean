import StudyArchive.Proofs.Container.Recovery
/-
# Refused changes

What a change leaves behind when it fails.  A refusal that is found while the record is checked
against the tree leaves everything as it was.  A record that has no frame is found out too late: the
tree has taken it by then, and the log has not.  So memory goes ahead of the log by that one change,
and by no other (`Mutation.refused_tree_within_log`).
-/

namespace StudyArchive

/-! ## Refusals of the tree

An error of the tree is never the one of a record without a frame, so the two kinds of failure can
be told apart by the error. -/

/-- A computation that does not fail for want of a frame. -/
def NeverUnencodable {α : Type} (x : Except StorageError α) : Prop :=
  ∀ e, x = .error e → e.isUnencodable = false

namespace NeverUnencodable

variable {α β : Type} {x : Except StorageError α} {f : α → Except StorageError β}

theorem of_ok (v : α) : NeverUnencodable (.ok v) := by
  intro e h
  cases h

theorem of_error {e : StorageError} (h : e.isUnencodable = false) :
    NeverUnencodable (.error e : Except StorageError α) := by
  intro e' eq
  cases eq
  exact h

theorem bind (first : NeverUnencodable x) (next : ∀ v, NeverUnencodable (f v)) :
    NeverUnencodable (x >>= f) := by
  cases x with
  | ok v => exact next v
  | error e => exact of_error (first e rfl)

end NeverUnencodable

open NeverUnencodable

namespace Dataset

variable (d : Dataset)

theorem checkSelection_neverUnencodable (operation : String) (s : Selection) :
    NeverUnencodable (d.checkSelection operation s) := by
  unfold checkSelection
  simp only
  split
  · exact of_error rfl
  · split
    · exact of_ok ()
    all_goals exact of_error rfl

theorem write_neverUnencodable (operation : String) (s : Selection) (values : List Datum) :
    NeverUnencodable (d.write operation s values) := by
  refine (d.checkSelection_neverUnencodable operation s).bind fun _ => ?_
  simp only
  split
  · exact of_error rfl
  · exact of_ok _

theorem extend_neverUnencodable (extent : Nat) : NeverUnencodable (d.extend extent) := by
  unfold extend
  split
  · split
    · exact of_error rfl
    · exact of_ok _
  · exact of_error rfl

theorem attachScale_neverUnencodable (axis : Nat) (s : AttachedScale) :
    NeverUnencodable (d.attachScale axis s) := by
  unfold attachScale
  split
  · exact of_error rfl
  · split
    · exact of_ok _
    · exact of_ok _

end Dataset

namespace Tree

variable (t : Tree)

theorem openDataset_neverUnencodable (path : Path) (operation : String) :
    NeverUnencodable (t.openDataset path operation) := by
  unfold openDataset
  split
  · exact of_ok _
  · exact of_error rfl

theorem ensureGroups_neverUnencodable (goal prior : Path) (segments : List String) :
    NeverUnencodable (t.ensureGroups goal prior segments) := by
  induction segments generalizing t prior with
  | nil => exact of_ok t
  | cons segment rest ih =>
    rw [ensureGroups]
    split
    · exact ih _ _
    · exact of_error rfl
    · exact ih _ _

theorem ensureParent_neverUnencodable (path : Path) : NeverUnencodable (t.ensureParent path) := by
  unfold ensureParent
  split
  · exact t.ensureGroups_neverUnencodable _ _ _
  · exact of_ok t

theorem createDataset_neverUnencodable (d : Dataset) : NeverUnencodable (t.createDataset d) := by
  unfold createDataset
  simp only
  split
  · exact of_error (e := .alreadyExists d.path "create_dataset") rfl
  · split
    · exact of_error (e := .shapeMismatch ..) rfl
    · exact (t.ensureParent_neverUnencodable _).bind fun _ => of_ok _

theorem setAttribute_neverUnencodable (path : Path) (name : String) (value : AttrValue) :
    NeverUnencodable (t.setAttribute path name value) := by
  unfold setAttribute
  split
  · exact of_ok _
  · exact of_ok _
  · exact of_error rfl

theorem createLink_neverUnencodable (link target : Path) :
    NeverUnencodable (t.createLink link target) := by
  unfold createLink
  split
  · exact of_error (e := .alreadyExists link "create_soft_link") rfl
  · exact (t.ensureParent_neverUnencodable _).bind fun _ => of_ok _

theorem payloadValues_neverUnencodable (file : String) (type : DataType) (s : Selection)
    (payload : Bytes) : NeverUnencodable (payloadValues file type s payload) := by
  unfold payloadValues
  split
  · exact of_ok _
  · exact of_error rfl

/-- The tree refuses a record for what the record asks, never for its length. -/
theorem apply_neverUnencodable (file : String) (r : Record) :
    NeverUnencodable (t.apply file r) := by
  cases r with
  | createGroup path => exact t.ensureGroups_neverUnencodable _ _ _
  | createDataset path type dims extensible chunkRows fill =>
    exact t.createDataset_neverUnencodable _
  | extend path extent =>
    exact (t.openDataset_neverUnencodable _ _).bind fun id =>
      ((t.dataset id).extend_neverUnencodable extent).bind fun _ => of_ok _
  | write path start count payload =>
    exact (t.openDataset_neverUnencodable _ _).bind fun id =>
      (payloadValues_neverUnencodable file _ _ _).bind fun values =>
        ((t.dataset id).write_neverUnencodable _ _ values).bind fun _ => of_ok _
  | setAttribute path name value => exact t.setAttribute_neverUnencodable path name value
  | markScale path name => exact (t.openDataset_neverUnencodable _ _).bind fun _ => of_ok _
  | attachScale dataset scale label axis =>
    exact (t.openDataset_neverUnencodable _ _).bind fun _ =>
      (t.openDataset_neverUnencodable _ _).bind fun id =>
        ((t.dataset id).attachScale_neverUnencodable axis _).bind fun _ => of_ok _
  | softLink link target => exact t.createLink_neverUnencodable link target

end Tree

theorem Container.payload_neverUnencodable (c : Container) (d : Dataset) (operation : String)
    (values : List Datum) : NeverUnencodable (c.payload d operation values) := by
  induction values with
  | nil => exact of_ok []
  | cons v rest ih =>
    have element : NeverUnencodable
        ((v.encode d.type).mapError fun fault => StorageError.io c.file (.element fault)) := by
      cases v.encode d.type with
      | ok bytes => exact of_ok bytes
      | error fault => exact of_error rfl
    unfold payload
    split
    · exact element.bind fun _ => ih.bind fun _ => of_ok _
    · exact of_error rfl

/-! ## Where a change leads

`Ahead` is what a record without a frame leaves: the tree has it, the log has not. -/

namespace Mutation

open Container

variable {m m' : Mounted} {w : LogWriter} {μ : Mutation}

/-- A change that the tree took and the log did not: all but the tree is as it was. -/
structure Ahead (m : Mounted) (μ : Mutation) (m' : Mounted) : Prop where
  asked : μ.asked m.container = .ok m'.container.tree
  others : m' = { m with container := { m.container with tree := m'.container.tree } }

/-- What a refusal of an open container leaves behind. -/
def Refused (m : Mounted) (μ : Mutation) (e : StorageError) (m' : Mounted) : Prop :=
  if e.isUnencodable then Ahead m μ m' else m' = m

theorem refused_same {e : StorageError} (h : e.isUnencodable = false) : Refused m μ e m := by
  simp [Refused, h]

theorem ends_commit_refused (isOpen : m.container.writer = some w) {r : Record}
    (asked : μ.asked m.container = m.container.tree.apply m.container.file r) :
    Ends (commit r) m (fun _ _ => True) (Refused m μ) := by
  refine (ends_commit isOpen r).mono (fun _ _ _ => trivial) ?_
  rintro e m' (⟨rfl, refused⟩ | ⟨unencodable, tree, applied, rfl⟩)
  · exact refused_same (Tree.apply_neverUnencodable _ _ _ e refused)
  · rw [Refused, if_pos unencodable]
    exact ⟨asked.trans applied, rfl⟩

theorem ends_write_refused (isOpen : m.container.writer = some w) (id : DatasetId)
    (operation : String) (s : Selection) (values : List Datum) :
    Ends (Container.write id operation s values) m (fun _ _ => True)
      (Refused m (write id operation s values)) := by
  refine ends_write_of ?_ fun payload written _ _ written_eq => ?_
  · rintro e (refused | refused | refused)
    · exact refused_same (Dataset.checkSelection_neverUnencodable _ _ _ e refused)
    · exact refused_same (payload_neverUnencodable _ _ _ _ e refused)
    · exact refused_same (Dataset.write_neverUnencodable _ _ _ _ e refused)
  -- The log sees the tree with the values in it.
  refine (ends_append (by exact isOpen) _).mono (fun _ _ _ => trivial) ?_
  rintro e m' ⟨rfl, unencodable⟩
  rw [Refused, if_pos unencodable]
  refine ⟨?_, rfl⟩
  rw [asked, written_eq]
  rfl

/-- Where a change of an open container that fails leaves it. -/
theorem ends_run_refused (isOpen : m.container.writer = some w) (μ : Mutation) :
    Ends μ.run m (fun _ _ => True) (Refused m μ) := by
  cases eq : μ.isWrite with
  | false =>
    exact ends_run_of_commit eq trivial (fun _ => refused_same) fun r _ asked =>
      ends_commit_refused isOpen asked
  | true =>
    obtain ⟨id, operation, s, values, rfl⟩ := exists_of_isWrite eq
    exact ends_write_refused isOpen id operation s values

/-! ## Closed containers -/

/-- A closed container stays as it is, whatever is asked of it but a write. -/
theorem ends_run_of_closed (closed : m.container.isClosed) (notWrite : μ.isWrite = false) :
    Ends μ.run m (fun _ m' => m' = m) (fun _ m' => m' = m) := by
  refine ends_run_of_commit notWrite rfl (fun _ _ => rfl) fun r _ _ => ?_
  unfold commit
  simp [closed]

/-! ## Memory and log

A refused change has put nothing into the log, so whoever opens a file that holds the log finds
the tree from before. -/

/-- What reopening a log gives is the tree that the container had when its log ended there. -/
theorem reopen_of_live (live : Live m) (isOpen : m.container.writer = some w) {disk : Disk}
    {config : StorageConfig} {id : FileId} (resumable : Resumable disk config id (w.log m.disk))
    (stamp : Stamp) :
    ∃ c, (openFile disk config stamp).result = .ok c ∧ c.tree = m.container.tree := by
  obtain ⟨v, frames, logged, -⟩ := live.logged
  have same : v = w := Option.some.inj (logged.isOpen.symm.trans isOpen)
  subst same
  obtain ⟨c, -, result, -, tree, -⟩ := logged.reopen_whole resumable stamp
  exact ⟨c, result, tree⟩

/-- What a refused change leaves behind, whatever the container holds and whatever was asked.

A closed container that refuses anything but a write is as it was.  An open one is as it was unless
the record had no frame; if so, the tree is the one that the change asked for, and disk, writer and
all the rest are as they were.  The log never takes part in a refusal: opening any file that holds
it gives the tree from before the change. -/
theorem refused_tree_within_log {e : StorageError} (refused : μ.run m = .error e m') :
    (m.container.isClosed → μ.isWrite = false → m' = m) ∧
    (m.container.isClosed = false → Refused m μ e m') ∧
    ∀ w, Live m → m.container.writer = some w →
      m'.container.writer = some w ∧ w.log m'.disk = w.log m.disk ∧
      ∀ disk config id stamp, Resumable disk config id (w.log m'.disk) →
        ∃ c, (openFile disk config stamp).result = .ok c ∧ c.tree = m.container.tree := by
  refine ⟨?_, ?_, ?_⟩
  · intro closed notWrite
    exact (ends_run_of_closed closed notWrite).bad_of_eq refused
  · intro isOpen
    obtain ⟨w, isOpen⟩ : ∃ w, m.container.writer = some w :=
      Option.isSome_iff_exists.1 (by simpa [isClosed] using isOpen)
    exact (ends_run_refused isOpen μ).bad_of_eq refused
  · intro w live isOpen
    have left := (ends_run_refused isOpen μ).bad_of_eq refused
    obtain ⟨writer, disk⟩ : m'.container.writer = m.container.writer ∧ m'.disk = m.disk := by
      rw [Refused] at left
      split at left
      · rw [left.others]
        exact ⟨rfl, rfl⟩
      · rw [left]
        exact ⟨rfl, rfl⟩
    rw [writer, disk]
    exact ⟨isOpen, rfl, fun _ _ _ stamp resumable => reopen_of_live live isOpen resumable stamp⟩

/-- A group is refused once the container is closed, and so is an attribute of an object that is not
there while it is open. -/
theorem refused_tree_within_log_of_group : ∃ c, (openFile default {} default).result = .ok c ∧
    ∃ m e m', m = close ⟨(openFile default {} default).disk, c⟩ ∧ m.container.isClosed ∧
      (createGroup (.ofText "late")).run m = .error e m' ∧ m' = m ∧
      ∃ e' m'', (setAttribute (.ofText "x") "units" (.text "m")).run
          ⟨(openFile default {} default).disk, c⟩ = .error e' m'' ∧
        Refused ⟨(openFile default {} default).disk, c⟩
          (setAttribute (.ofText "x") "units" (.text "m")) e' m'' := by
  have ready : (openFile default {} default).result.toOption.any (fun c =>
      !c.isClosed && (close ⟨(openFile default {} default).disk, c⟩).container.isClosed &&
        (okState? ((createGroup (.ofText "late")).run
          (close ⟨(openFile default {} default).disk, c⟩))).isNone &&
        (okState? ((setAttribute (.ofText "x") "units" (.text "m")).run
          ⟨(openFile default {} default).disk, c⟩)).isNone) := by
    decide +kernel
  obtain ⟨c, opened, ready⟩ := (Option.any_eq_true ..).1 ready
  simp only [Bool.and_eq_true, Bool.not_eq_true', Option.isNone_iff_eq_none] at ready
  obtain ⟨⟨⟨isOpen, closed⟩, late⟩, absent⟩ := ready
  obtain ⟨e, m', late⟩ := exists_error_of_okState? late
  obtain ⟨e', m'', absent⟩ := exists_error_of_okState? absent
  exact ⟨c, eq_ok_of_toOption opened, _, e, m', rfl, closed, late,
    (refused_tree_within_log late).1 closed rfl, e', m'', absent,
    (refused_tree_within_log absent).2.1 isOpen⟩

/-! ## Memory ahead of the log

A text of 2^32 bytes has no room in a frame, and the tree takes it all the same. -/

/-- A text with one byte for each of its characters. -/
def plainText (n : Nat) : String := String.ofList (List.replicate n 'a')

theorem length_plainText (n : Nat) : (Bytes.ofText (plainText n)).length = n := by
  induction n with
  | zero => rfl
  | succ n ih =>
    rw [Bytes.ofText, Array.length_toList] at ih ⊢
    show (List.replicate (n + 1) 'a').utf8Encode.size = n + 1
    rw [List.replicate_succ, List.utf8Encode_cons, ByteArray.size_append, Nat.add_comm]
    exact congrArg (· + 1) ih

/-- An attribute whose text has no length in 32 bits has no frame. -/
theorem lt_of_encode_setAttribute {path : Path} {name v : String} {bytes : Bytes}
    (h : (Record.setAttribute path name (.text v)).encode = .ok bytes) :
    (Bytes.ofText v).length < Bytes.span 4 := by
  obtain ⟨_, written, -⟩ := Record.encode_eq_ok h
  obtain ⟨_, -, written⟩ := exists_of_bind_eq_ok written
  obtain ⟨_, -, written⟩ := exists_of_bind_eq_ok written
  obtain ⟨_, value, -⟩ := exists_of_bind_eq_ok written
  obtain ⟨_, text, -⟩ := exists_of_bind_eq_ok value
  obtain ⟨_, length, -⟩ := exists_of_bind_eq_ok text
  exact (Frame.putLength_eq_ok length).1

theorem ends_setAttribute_long (isOpen : m.container.writer = some w)
    (empty : m.container.tree = .empty) (name : String) :
    Ends (setAttribute .root name (.text (plainText (Bytes.span 4)))).run m (fun _ _ => False)
      (fun e m' => e.isUnencodable ∧ m'.container.tree ≠ m.container.tree) := by
  have found : m.container.tree.resolvePath? .root = some .root := by
    rw [empty]
    rfl
  have applied : ∃ group : SortedMap String AttrValue, group.get? name ≠ none ∧
      m.container.tree.apply m.container.file
          (.setAttribute .root name (.text (plainText (Bytes.span 4)))) =
        .ok (Tree.empty.putNode .root (.group group)) := by
    refine ⟨(∅ : SortedMap String AttrValue).insert name (.text (plainText (Bytes.span 4))),
      ?_, ?_⟩
    · rw [SortedMap.get?_insert_self]
      exact Option.some_ne_none _
    · rw [empty]
      rfl
  obtain ⟨group, filed, applied⟩ := applied
  unfold run Container.setAttribute
  simp only [ends_bind, ends_get, found]
  refine (ends_commit isOpen _).mono ?_ ?_
  · rintro _ m' ⟨-, v, w', -, appended, -⟩
    unfold LogWriter.append at appended
    split at appended
    · cases appended
    · next encoded =>
      have short := lt_of_encode_setAttribute encoded
      rw [length_plainText] at short
      exact (Nat.lt_irrefl _ short).elim
  · rintro e m' (⟨-, refused⟩ | ⟨unencodable, tree, taken, rfl⟩)
    · rw [applied] at refused
      cases refused
    · refine ⟨unencodable, fun same => ?_⟩
      rw [applied] at taken
      cases taken
      have root := congrArg (fun t : Tree => t.nodes.get? .root) (same.trans empty)
      simp only [Tree.putNode, SortedMap.get?_insert_self] at root
      cases root
      exact filed rfl

/-- Memory does go ahead of the log: a closed container takes the values of the write that it
refuses, and an open one takes an attribute whose record has no frame. -/
theorem refused_tree_ahead :
    (∃ m, Live m ∧ ∃ e m', (write 0 "write" ⟨[0], [1]⟩ [.real .nan]).run (close m) = .error e m' ∧
      m'.container.dataset 0 ≠ (close m).container.dataset 0) ∧
    (∃ m, Live m ∧
      ∃ e m', (setAttribute .root "note" (.text (plainText (Bytes.span 4)))).run m = .error e m' ∧
      e.isUnencodable ∧ m'.container.tree ≠ m.container.tree) := by
  constructor
  · let column := createDataset (.ofText "x") (.scalar .real) [1] false 1 (.real .zero)
    let nan := write 0 "write" ⟨[0], [1]⟩ [.real .nan]
    have ready : (openFile default {} default).result.toOption.any (fun c =>
        let m : Mounted := ⟨(openFile default {} default).disk, c⟩
        !column.overflows m && (okState? (nan.run (close (after m column)))).isNone &&
          (stateAfter (nan.run (close (after m column)))).container.dataset 0 ≠
            (close (after m column)).container.dataset 0) := by
      decide +kernel
    obtain ⟨c, opened, ready⟩ := (Option.any_eq_true ..).1 ready
    simp only [Bool.and_eq_true, Bool.not_eq_true', Option.isNone_iff_eq_none,
      decide_eq_true_eq] at ready
    obtain ⟨⟨fits, refused⟩, ahead⟩ := ready
    obtain ⟨e, m', refused⟩ := exists_error_of_okState? refused
    rw [refused] at ahead
    exact ⟨_, .changed (.opened (eq_ok_of_toOption opened)) rfl fits, e, m', refused, ahead⟩
  · have ready : (openFile default {} default).result.toOption.any (fun c =>
        c.writer.isSome && c.tree = .empty) := by
      decide +kernel
    obtain ⟨c, opened, ready⟩ := (Option.any_eq_true ..).1 ready
    simp only [Bool.and_eq_true, decide_eq_true_eq] at ready
    obtain ⟨w, isOpen⟩ := Option.isSome_iff_exists.1 ready.1
    let m : Mounted := ⟨(openFile default {} default).disk, c⟩
    have ends := ends_setAttribute_long (m := m) isOpen ready.2 "note"
    refine ⟨m, .opened (eq_ok_of_toOption opened), ?_⟩
    cases ran : (setAttribute .root "note" (.text (plainText (Bytes.span 4)))).run m with
    | ok v m' => exact (ends.good_of_eq ran).elim
    | error e m' => exact ⟨e, m', rfl, ends.bad_of_eq ran⟩

end Mutation
end StudyArchive
