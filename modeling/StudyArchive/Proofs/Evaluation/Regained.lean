import StudyArchive.Proofs.Evaluation.Allocating
import StudyArchive.Proofs.Evaluation.Remains
/-
# Going on after a crash

A run of the store dies, and its log is cut at any byte after the header.  Whoever opens it and
allocates a producer again, by whatever evaluation, is told that its datasets do not fit, or finds
the inputs of one stored evaluation in each row (`Recording.regains_inputs`).

There is one exception.  The datasets are compared by their extents, and these do not tell whether
the last row of the last dataset was given its data: it may be at the fill still.  This matters
where inputs go into the last dataset, as they do if the schema has derivative variables but no
function whose derivatives are asked for, and no metadata.
-/

namespace StudyArchive

open EvaluationLayout

/-- The last part of a schema, in the order in which inputs are appended. -/
def EvaluationPart.IsLast (s : EvaluationSchema) (part : EvaluationPart) : Prop :=
  ∃ before after, before ++ part :: after = appended ∧ ∀ other ∈ after, other.shape? s = none

namespace Archive

variable {a : Archive} {root : Path} {entries : List JournalEntry}

/-- Row `i` of `n` rows below a producer's group holds the inputs of an entry, in each part of its
schema that no response goes into; the last row may be without those of the last part. -/
def HoldsInputs (a : Archive) (root : Path) (n i : Nat) (e : JournalEntry) : Prop :=
  ∀ part ∉ EvaluationPart.answered, ∀ shape, part.shape? e.schema = some shape →
    ∃ d, a.at? (part.path root) = some d ∧ d.dims = n :: shape ∧
      (d.row i = part.inputRow e.schema e.inputs ∨
        i + 1 = n ∧ part.IsLast e.schema ∧ d.row i = List.replicate (volume shape) part.fill)

/-- Each row that has an identifier holds the inputs of the entry at its place. -/
def RegainsInputs (a : Archive) (root : Path) (entries : List JournalEntry) : Prop :=
  ∀ ids, a.at? (EvaluationPart.ids.path root) = some ids → ∀ i < ids.rows,
    ∃ e, entries[i]? = some e ∧ a.HoldsInputs root ids.rows i e

/-- Where the extents agree with a schema, rows hold inputs. -/
theorem regainsInputs_of_dims (tells : a.tree.Tells root entries) {s : EvaluationSchema} {n : Nat}
    (dims : ∀ part : EvaluationPart,
      (a.at? (part.path root)).map Dataset.dims = (part.shape? s).map (n :: ·)) :
    a.RegainsInputs root entries := by
  intro ids found i low
  have rows {part : EvaluationPart} {d : Dataset} (there : a.at? (part.path root) = some d) :
      d.rows = n := by
    have eq := dims part
    rw [there] at eq
    obtain ⟨shape, -, eq⟩ := Option.map_eq_some_iff.1 eq.symm
    rw [Dataset.rows, ← eq]
    rfl
  obtain ⟨e, at_, -⟩ := tells.rows .ids ids found i low
  rw [rows found] at low ⊢
  -- An entry has the parts that there are.
  have same (part : EvaluationPart) : part.shape? e.schema = part.shape? s := by
    have eq := dims part
    cases there : a.at? (part.path root) with
    | none =>
      rw [there] at eq
      rw [Option.map_eq_none_iff.1 eq.symm]
      by_contra has
      obtain ⟨d, found'⟩ := tells.whole ids found i (by rwa [rows found]) e at_ part has
      cases there.symm.trans found'
    | some d =>
      rw [there] at eq
      obtain ⟨shape, has, eq⟩ := Option.map_eq_some_iff.1 eq.symm
      obtain ⟨e', at', has', -⟩ := tells.rows part d there i (by rwa [rows there])
      obtain rfl := Option.some.inj (at_.symm.trans at')
      rw [has', has, ← eq, List.tail_cons]
  refine ⟨e, at_, fun part out shape has => ?_⟩
  -- The parts that come after one whose row is unwritten have fewer rows.  As all that are there
  -- have equally many, none comes after it.
  have eq := dims part
  rw [← same part, has] at eq
  obtain ⟨d, there, eq⟩ := Option.map_eq_some_iff.1 eq
  refine ⟨d, there, eq, ?_⟩
  obtain ⟨e', at', -, held⟩ := tells.rows part d there i (by rwa [rows there])
  obtain rfl := Option.some.inj (at_.symm.trans at')
  refine (held out).imp_right fun unwritten => ⟨?_, ?_, ?_⟩
  · rw [unwritten.last, rows there]
  · obtain ⟨before, after, split, later⟩ := unwritten.later
    refine ⟨before, after, split, fun other mem => ?_⟩
    have eq := dims other
    rw [← same other] at eq
    cases there' : a.at? (other.path root) with
    | none =>
      rw [there'] at eq
      exact Option.map_eq_none_iff.1 eq.symm
    | some d' =>
      have high := later other mem d' there'
      rw [rows there'] at high
      exact absurd low (Nat.not_lt.2 high)
  · rw [unwritten.fill, eq, List.tail_cons]

end Archive

namespace Recording

/-- After a crash at any byte of a run's log, the archive opens again; and when a producer is
allocated in it, it is disabled at once, or each of its rows holds the inputs that the run stored
there, unless the row and the dataset are the last. -/
theorem regains_inputs {start : Recording} (fresh : start.Fresh) {calls : List StoreCall}
    (proper : ∀ c ∈ calls, c.IsProper) (within : StoreCall.overflowsIn start calls = false)
    {w : LogWriter}
    (isOpen : (StoreCall.afterAll start calls).archive.container.writer = some w) {n : Nat}
    (long : Header.size ≤ n) {disk : Disk} {config : StorageConfig} {id : FileId}
    (resumable : Resumable disk config id
      ((w.log (StoreCall.afterAll start calls).archive.mounted.disk).take n)) (stamp : Stamp)
    {p : Producer} (proper_p : p.IsProper) {store : EvaluationStore}
    (producers : store.producers = ∅) (slots : store.slots = ∅) (selected : store.selects p = true)
    {inputs : Variables} {response : Response} {active : ActiveSet} {s : EvaluationSchema}
    (captured : EvaluationSchema.capture p inputs response active = .ok s) :
    ∃ a, (Archive.openFile disk config stamp).result = .ok a ∧
      ∀ r', r' = (StoreCall.allocate p inputs response active).after ⟨a, store, []⟩ →
        r'.store.isDisabled p = true ∨
        r'.archive.RegainsInputs p.root (Journal.afterAll start (fun _ => []) calls p.root) ∧
          ∀ e ∈ Journal.afterAll start (fun _ => []) calls p.root,
            e.producer.root = p.root ∧ .storeVariables e.producer e.inputs ∈ calls := by
  have hr := Producer.segments_root proper_p
  have agrees := fresh.agrees.afterAll fresh.sound proper within
  have remembers := fresh.remembers proper within
  generalize j_eq : Journal.afterAll start (fun _ => []) calls = j at agrees remembers ⊢
  have entries (e : JournalEntry) (mem : e ∈ j p.root) :
      e.producer.root = p.root ∧ .storeVariables e.producer e.inputs ∈ calls := by
    refine ⟨(agrees.archive p.root hr).owners e mem, ?_⟩
    rw [← j_eq] at mem
    rcases Journal.stored_of_mem_afterAll mem with ⟨e₀, none, -⟩ | stored
    · cases none
    · exact stored
  obtain ⟨a, opened, handles, throughout⟩ :=
    Archive.exists_reopened remembers isOpen long resumable stamp
  have told := throughout.live
  have laid : a.LaidOut := Archive.laidOut_of_tree
    (Archive.sound_of_ready throughout.ready handles) told.laidOut
  refine ⟨a, opened, fun r' r'_eq => ?_⟩
  have sound := sound_of_new laid producers slots
  have unknown : store.producers.get? p = none := by rw [producers]; rfl
  have ended := (ends_allocate_new sound proper_p unknown selected captured).and
    (ends_allocate sound proper_p inputs response active).quiet
  have absent (quiet : Quiet ⟨a, store, []⟩ r')
      (none : a.at? (EvaluationPart.ids.path p.root) = none) :
      r'.archive.RegainsInputs p.root (j p.root) := by
    intro ids found i low
    obtain ⟨owner, built, -⟩ := quiet.built
    rcases built.made hr found with ⟨d, there⟩ | ⟨-, empty⟩
    · cases none.symm.trans there
    · omega
  refine (Ends.state (P := fun r'' => r'' = r' → _) (ended.mono ?_ ?_) r'_eq.symm)
  · rintro _ _ ⟨allocated, quiet⟩ rfl
    cases allocated with
    | unfit known _ => exact .inl (EvaluationStore.isDisabled_of_get? known)
    | made none _ _ => exact .inr ⟨absent quiet none, entries⟩
    | fit compared _ same =>
      obtain ⟨four, -⟩ := EvaluationSchema.fits_of_capture captured
      obtain ⟨n, -, dims⟩ := laid.dims_of_drift hr four compared
      refine .inr ⟨?_, entries⟩
      rw [same]
      exact Archive.regainsInputs_of_dims (told.tells p.root hr) dims
  · rintro _ _ ⟨none, quiet⟩ rfl
    exact .inr ⟨absent quiet none, entries⟩

/-- One derivative variable, and no functions. -/
def oneVariable : ActiveSet := ⟨[], [1]⟩

-- The log ends in the flags of the derivative variables, and lacks its last byte.
theorem regains_inputs_of_torn_flags : ∃ start w a s, start.Fresh ∧
    (StoreCall.afterAll start
      (StoreCall.sending (.model "s" "m") {} oneVariable [7])).archive.container.writer = some w ∧
    EvaluationSchema.capture (.model "s" "m") {} (.blank oneVariable []) oneVariable = .ok s ∧
    (Archive.openFile (Container.crash (StoreCall.afterAll start
      (StoreCall.sending (.model "s" "m") {} oneVariable [7])).archive.mounted 1424)
      { mode := .append } default).result = .ok a ∧
    ∀ r', r' = (StoreCall.allocating (.model "s" "m") {} oneVariable).after ⟨a, {}, []⟩ →
      r'.store.isDisabled (.model "s" "m") = true ∨
      r'.archive.RegainsInputs (Producer.model "s" "m").root
        (Journal.afterAll start (fun _ => [])
          (StoreCall.sending (.model "s" "m") {} oneVariable [7])
          (Producer.model "s" "m").root) := by
  have ready : (started {}).any (fun r =>
      (fun calls => !StoreCall.overflowsIn r calls &&
        (StoreCall.afterAll r calls).archive.container.writer.any fun w =>
          (StoreCall.afterAll r calls).archive.mounted.disk.findFile ⟨"results.edb"⟩ = .ok w.id &&
            decide (w.id ∉ (StoreCall.afterAll r calls).archive.mounted.disk.locks.erase w.id))
      (StoreCall.sending (.model "s" "m") {} oneVariable [7])) := by decide +kernel
  have captures : (EvaluationSchema.capture (.model "s" "m") {} (.blank oneVariable [])
      oneVariable).toOption.isSome := by decide
  obtain ⟨s, captured⟩ := Option.isSome_iff_exists.1 captures
  obtain ⟨start, opened, ready⟩ := (Option.any_eq_true ..).1 ready
  obtain ⟨within, ready⟩ := Bool.and_eq_true_iff.1 ready
  obtain ⟨w, isOpen, ready⟩ := (Option.any_eq_true ..).1 ready
  simp only [Bool.and_eq_true, decide_eq_true_eq] at ready
  have fresh := fresh_of_started rfl rfl opened
  have resumable :=
    Container.resumable_crash isOpen { mode := .append } rfl rfl ready.1 ready.2 1424
  have producers : EvaluationStore.producers {} = ∅ := rfl
  obtain ⟨a, reopened, regains⟩ := regains_inputs fresh (by decide)
    (Bool.not_eq_true' _ ▸ within) isOpen (by decide) resumable default
    (p := .model "s" "m") (by decide) producers rfl rfl (eq_ok_of_toOption captured)
  exact ⟨start, w, a, s, fresh, isOpen, eq_ok_of_toOption captured, reopened,
    fun r' after => (regains r' after).imp_right And.left⟩

end Recording
end StudyArchive
