import StudyArchive.Proofs.Container.Commit
import StudyArchive.Proofs.Log.Scan
/-
# Changes of a container, one after the other

The eight requests that change a container, as data.  `Mutation.ends_run` says where one of them
leads: the container and its disk are as they were, or tree and log took one and the same record.
-/

namespace StudyArchive

/-- A container that is as it was, or whose tree and log took one record. -/
def Container.Recorded (m m' : Mounted) : Prop := m' = m ∨ ∃ r, r.isPlain ∧ Took m r m'

/-- A request to change a container. -/
inductive Mutation where
  | createGroup (path : Path)
  | createDataset (path : Path) (type : DataType) (dims : List Nat) (extensible : Bool)
      (chunkRows : Nat) (fill : Datum)
  | extend (id : DatasetId) (extent : Nat)
  | write (id : DatasetId) (operation : String) (s : Selection) (values : List Datum)
  | setAttribute (path : Path) (name : String) (value : AttrValue)
  | markScale (id : DatasetId) (name : String)
  | attachScale (id scale : DatasetId) (label : String) (axis : Nat)
  | createLink (link target : Path)

namespace Mutation

def run : Mutation → Container.Action Unit
  | createGroup path => Container.createGroup path
  | createDataset path type dims extensible chunkRows fill =>
    (fun _ => ()) <$> Container.createDataset path type dims extensible chunkRows fill
  | extend id extent => Container.extend id extent
  | write id operation s values => Container.write id operation s values
  | setAttribute path name value => Container.setAttribute path name value
  | markScale id name => Container.markScale id name
  | attachScale id scale label axis => (fun _ => ()) <$> Container.attachScale id scale label axis
  | createLink link target => Container.createLink link target

/-- A change that a caller can ask for: its datasets are there, and a type of records that it
brings along has no array of no elements. -/
def isProper (t : Tree) : Mutation → Bool
  | createDataset _ type _ _ _ _ => type.isPlain
  | extend id _ | write id _ _ _ | markScale id _ => id < t.datasets.length
  | attachScale id scale _ _ => id < t.datasets.length && scale < t.datasets.length
  | createGroup _ | setAttribute _ _ _ | createLink _ _ => true

/-- Whether a change fails for a record without a frame. -/
def overflows (μ : Mutation) (m : Mounted) : Bool :=
  match μ.run m with
  | .ok .. => false
  | .error e _ => e.isUnencodable

/-- The container and disk after a change, whether it succeeds or fails. -/
def after (m : Mounted) (μ : Mutation) : Mounted := stateAfter (μ.run m)

/-- The container and disk after changes one after the other. -/
def afterAll (m : Mounted) (μs : List Mutation) : Mounted := μs.foldl after m

/-- Changes one after the other, each of them one that a caller can ask for there, and none of which
fails for a record without a frame. -/
def areProper : Mounted → List Mutation → Bool
  | _, [] => true
  | m, μ :: rest => μ.isProper m.container.tree && !μ.overflows m && areProper (after m μ) rest

/-- Whether a change puts its values into the tree before it looks for the log. -/
def isWrite : Mutation → Bool
  | write .. => true
  | _ => false

theorem exists_of_isWrite {μ : Mutation} (h : μ.isWrite) :
    ∃ id operation s values, μ = write id operation s values := by
  cases μ with
  | write id operation s values => exact ⟨id, operation, s, values, rfl⟩
  | _ => cases h

/-- The tree that a change asks for. -/
def asked (c : Container) : Mutation → Except StorageError Tree
  | createGroup path => c.tree.apply c.file (.createGroup path)
  | createDataset path type dims extensible chunkRows fill =>
    c.tree.apply c.file (.createDataset path type dims extensible chunkRows fill)
  | extend id extent => c.tree.apply c.file (.extend (c.dataset id).path extent)
  | write id operation s values => do
    return c.tree.updateDataset id (← (c.dataset id).write operation s values)
  | setAttribute path name value =>
    match c.tree.resolvePath? path with
    | some target => c.tree.apply c.file (.setAttribute target name value)
    | none => .error (.notFound path "set_attribute")
  | markScale id name => c.tree.apply c.file (.markScale (c.dataset id).path name)
  | attachScale id scale label axis =>
    c.tree.apply c.file (.attachScale (c.dataset id).path (c.dataset scale).path label axis)
  | createLink link target => c.tree.apply c.file (.softLink link target)

/-! ## One change -/

open Container

variable {m : Mounted} {w : LogWriter}

/-- A change that is not a write finds that there is nothing to do, is refused, or commits the
record that it asks for, whose fill it has looked at. -/
theorem ends_run_of_commit {μ : Mutation} (notWrite : μ.isWrite = false)
    {good : Unit → Mounted → Prop} {bad : StorageError → Mounted → Prop} (idle : good () m)
    (early : ∀ e, e.isUnencodable = false → bad e m)
    (commits : ∀ r, r.isFilled ∧ (μ.isProper m.container.tree → r.isPlain) →
      μ.asked m.container = m.container.tree.apply m.container.file r →
      Ends (commit r) m good bad) : Ends μ.run m good bad := by
  cases μ with
  | createGroup path =>
    unfold run Container.createGroup
    simp only [ends_bind, ends_get]
    split
    · exact ends_pure.2 idle
    · exact commits _ ⟨rfl, fun _ => rfl⟩ rfl
  | createDataset path type dims extensible chunkRows fill =>
    unfold run Container.createDataset
    simp only [ends_map]
    by_cases fits : fill.conforms type
    · have plain : type.isPlain →
          (Record.createDataset path type dims extensible chunkRows fill).isPlain := by
        simp [Record.isPlain, fits]
      have filled : (Record.createDataset path type dims extensible chunkRows fill).isFilled := fits
      simpa only [fits, if_true, ends_bind, ends_get, ends_pure] using
        commits _ ⟨filled, plain⟩ rfl
    · simp only [fits, Bool.false_eq_true, if_false, ends_bind, ends_throw]
      exact early _ rfl
  | extend id extent =>
    unfold run Container.extend
    simp only [ends_bind, ends_get]
    split
    · exact commits _ ⟨rfl, fun _ => rfl⟩ rfl
    · simp only [ends_bind, ends_throw]
      exact early _ rfl
  | write id operation s values => cases notWrite
  | setAttribute path name value =>
    unfold run Container.setAttribute
    simp only [ends_bind, ends_get]
    split
    · next found => exact commits _ ⟨rfl, fun _ => rfl⟩ (by rw [asked, found])
    · rw [ends_throw]
      exact early _ rfl
  | markScale id name =>
    unfold run Container.markScale
    simp only [ends_bind, ends_get]
    split
    · exact ends_pure.2 idle
    · exact commits _ ⟨rfl, fun _ => rfl⟩ rfl
  | attachScale id scale label axis =>
    unfold run Container.attachScale
    simp only [ends_map, ends_bind, ends_get]
    split
    · simp only [ends_bind, ends_throw]
      exact early _ rfl
    · split
      · exact ends_pure.2 idle
      · simpa only [ends_bind, ends_pure] using commits _ ⟨rfl, fun _ => rfl⟩ rfl
  | createLink link target =>
    unfold run Container.createLink
    simp only [ends_bind, ends_get]
    split
    · split
      · exact ends_pure.2 idle
      · rw [ends_throw]
        exact early _ rfl
    · exact commits _ ⟨rfl, fun _ => rfl⟩ rfl

theorem ends_commit_record (isOpen : m.container.writer = some w) {r : Record}
    (plain : r.isPlain) :
    Ends (commit r) m (fun _ => Recorded m) (fun e m' => m' = m ∨ e.isUnencodable) := by
  refine (ends_commit isOpen r).mono (fun _ m' took => .inr ⟨r, plain, took⟩) ?_
  rintro e m' (⟨rfl, -⟩ | ⟨unencodable, -⟩)
  · exact .inl rfl
  · exact .inr unencodable

/-- A change of an open container leaves everything as it was or is one record. -/
theorem ends_run (sound : m.container.tree.Sound) (isOpen : m.container.writer = some w)
    {μ : Mutation} (proper : μ.isProper m.container.tree) :
    Ends μ.run m (fun _ => Recorded m) (fun e m' => m' = m ∨ e.isUnencodable) := by
  cases eq : μ.isWrite with
  | false =>
    exact ends_run_of_commit eq (.inl rfl) (fun _ _ => .inl rfl) fun r ⟨_, plain⟩ _ =>
      ends_commit_record isOpen (plain proper)
  | true =>
    obtain ⟨id, operation, s, values, rfl⟩ := exists_of_isWrite eq
    have known : id < m.container.tree.datasets.length := by simpa [isProper] using proper
    refine (ends_write sound isOpen known operation s values).mono ?_ ?_
    · rintro _ m' ⟨_, r, -, -, plain, took⟩
      exact .inr ⟨r, plain, took⟩
    · rintro e m' (rfl | ⟨unencodable, -⟩)
      · exact .inl rfl
      · exact .inr unencodable

end Mutation
end StudyArchive
