import StudyArchive.Proofs.Evaluation.Guard
import StudyArchive.Proofs.Evaluation.Rules
import StudyArchive.Proofs.Evaluation.Runs
/-
# Whole or not at all

Storing inputs takes many records, and the comparison of extents is there so that none of them is
refused.  In whatever archive, shared with whomever, what is known of a producer was put down by
allocating it (`Recording.Knows.after`); and where the producer's datasets are apt, its inputs are
stored whole or not at all (`Recording.stores_inputs_whole`).  Where they are not, inputs may be
stored in part (`Recording.stops_half_way`).
-/

namespace StudyArchive

open EvaluationLayout

/-! ## What is known of producers

Only allocating puts a producer down, and it is asked for what the check of a schema asks. -/

theorem Producer.countable_of_checkAscending (p : Producer) {ids : List Nat} {e : StudyError}
    (h : p.checkAscending ids = .error e) (path : Path) : e ≠ .uncountable path := by
  unfold checkAscending at h
  split at h <;> cases h
  simp

/-- What allocating puts down about a producer. -/
structure ProducerRecord.IsAllocated (record : ProducerRecord) (p : Producer) : Prop where
  layout : record.layout = .ofSchema p record.schema
  four : record.schema.variableCounts.length = 4

/-- The inputs of an evaluation gave every dataset of their producer one row, the same for all. -/
structure Recording.StoredWhole (r : Recording) (p : Producer) (s : EvaluationSchema)
    (x : EvaluationInputs) (n : Nat) (r' : Recording) : Prop where
  before : ∀ (part : EvaluationPart) shape, part.shape? s = some shape →
    ∃ id, r.archive.tree.denoted? (part.path p.root) = some id ∧
      (r.archive.dataset id).dims = n :: shape
  after : ∀ (part : EvaluationPart) shape, part.shape? s = some shape →
    ∃ id, r'.archive.tree.denoted? (part.path p.root) = some id ∧
      (r'.archive.dataset id).dims = (n + 1) :: shape
  rowed : Archive.Rowed p.root s x EvaluationPart.appended r.archive r'.archive
  slots : r'.store.slots = r.store.slots.insert (p, x.id) n
  producers : r'.store.producers = r.store.producers

namespace Recording

variable {r r' : Recording} {p : Producer} {x : EvaluationInputs} {record : ProducerRecord}
  {α : Type}

/-- Whatever is known of a producer was put down by allocating it. -/
def Knows (r : Recording) : Prop :=
  ∀ p record, r.store.producers.get? p = some record → record.IsAllocated p

theorem Knows.of_producers (h : r.Knows) (same : r'.store.producers = r.store.producers) :
    r'.Knows := by
  intro p record known
  rw [same] at known
  exact h p record known

theorem Knows.insert (h : r.Knows) (allocated : record.IsAllocated p)
    (put : r'.store.producers = r.store.producers.insert p record) : r'.Knows := by
  intro q record' known
  rw [put] at known
  rcases Table.eq_or_get?_of_insert known with ⟨rfl, rfl⟩ | old
  · exact allocated
  · exact h q record' old

theorem Knows.disable (h : r.Knows) (known : r.store.producers.get? p = some record) (id : UInt64)
    (reason : String) :
    Ends (disable p record id reason) r (fun _ => Knows) (fun _ => Knows) := by
  have allocated : ProducerRecord.IsAllocated { record with disabled := true } p :=
    ⟨(h p record known).layout, (h p record known).four⟩
  exact ends_disable_of (fun _ => h) fun _ => h.insert allocated rfl

theorem Knows.onArchive (h : r.Knows) (act : Archive.Action α) :
    Ends (onArchive act) r (fun _ => Knows) (fun _ => Knows) :=
  ends_onArchive.2 (ends_of_forall (fun _ _ _ => h.of_producers rfl)
    fun _ _ _ => h.of_producers rfl)

theorem Knows.allocate (h : r.Knows) (p : Producer) (inputs : Variables) (response : Response)
    (active : ActiveSet) :
    Ends (allocate p inputs response active) r (fun _ => Knows) (fun _ => Knows) := by
  refine ends_allocate_of (fun _ => h) (fun _ _ => h) fun s _ captured => ?_
  obtain ⟨four, -⟩ := EvaluationSchema.fits_of_capture captured
  exact ends_prepare_of (fun _ _ _ => h.insert ⟨rfl, four⟩ rfl) (fun _ _ _ => h) fun _ =>
    ends_of_forall (fun _ _ _ => h.insert ⟨rfl, four⟩ rfl) fun _ _ _ => h.of_producers rfl

theorem Knows.storeVariables (h : r.Knows) (p : Producer) (x : EvaluationInputs) :
    Ends (storeVariables p x.id x.active x.values) r (fun _ => Knows) (fun _ => Knows) :=
  ends_storeVariables_of (fun _ => h) (fun _ => h) (fun _ _ _ => h)
    (fun _ reason known _ _ => h.disable known x.id reason) (fun _ _ _ _ => h)
    fun _ _ _ _ _ _ _ _ =>
      ends_of_forall (fun _ _ _ => h.of_producers rfl) fun _ _ _ => h.of_producers rfl

theorem Knows.storeResponse (h : r.Knows) (p : Producer) (id : UInt64) (response : Response) :
    Ends (storeResponse p id response) r (fun _ => Knows) (fun _ => Knows) := by
  have freed : (r.freed p id).Knows := h.of_producers rfl
  exact ends_storeResponse_of (fun _ => h) (fun _ _ => h) (fun _ _ _ _ => h)
    (fun _ _ reason _ _ known _ => freed.disable known id reason) (fun _ _ _ _ _ _ _ _ => h)
    fun _ _ _ _ _ _ _ => freed.onArchive _

/-- Whatever calls are made and whatever comes of them, what is known of a producer was put down by
allocating it. -/
theorem Knows.after (h : r.Knows) (c : StoreCall) : (c.after r).Knows := by
  cases c with
  | allocate p inputs response active => exact (h.allocate p inputs response active).state
  | storeVariables p x => exact (h.storeVariables p x).state
  | storeResponse p id response => exact (h.storeResponse p id response).state
  | declareSource owner source => exact (h.onArchive _).state
  | storeParameters p parameters =>
    refine Ends.state (ends_bind.2 (ends_get.2 (ends_ite.2 ⟨fun _ => ?_, fun _ => ends_pure.2 h⟩)))
    exact h.onArchive _
  | addMethodModel id | setTopModel id =>
    obtain ⟨ids, eq⟩ := r.store.exists_addMethodModel id
    have same : (r.store.addMethodModel id).producers = r.store.producers := by rw [eq]
    exact h.of_producers same
  | abandon p id => exact h.of_producers rfl
  | select models interfaces => exact h.of_producers rfl

/-! ## Whole or not at all

What is appended is right for an apt dataset, so an append can fail for nothing but a frame. -/

/-- Where every part got its row, their extents agree again. -/
theorem storedWhole_of_rowed {s : EvaluationSchema} {n : Nat} {a : Archive}
    (before : ∀ (part : EvaluationPart) shape, part.shape? s = some shape →
      ∃ id, r.archive.tree.denoted? (part.path p.root) = some id ∧
        (r.archive.dataset id).dims = n :: shape)
    (rowed : Archive.Rowed p.root s x EvaluationPart.appended r.archive a) :
    StoredWhole r p s x n { r with
      archive := a, store := { r.store with slots := r.store.slots.insert (p, x.id) n } } := by
  refine ⟨before, fun part shape has => ?_, rowed, rfl, rfl⟩
  obtain ⟨id, denotes, dims⟩ := before part shape has
  have appended := rowed.parts part part.mem_appended (by simp [has]) id denotes
  refine ⟨id, (Tree.denoted?_congr rowed.nodes _).trans denotes, ?_⟩
  show (a.dataset id).dims = _
  rw [appended.dims, Dataset.rows, dims]
  rfl

section
variable (coherent : r.archive.Coherent)

include coherent

/-- Allocating counts rows only where there are some. -/
theorem ends_allocate_countable (p : Producer)
    (axis : ∀ id, r.archive.tree.denoted? (EvaluationPart.ids.path p.root) = some id →
      (r.archive.dataset id).dims ≠ []) (inputs : Variables) (response : Response)
    (active : ActiveSet) :
    Ends (allocate p inputs response active) r (fun _ _ => True)
      (fun e _ => ∀ path, e ≠ .uncountable path) := by
  refine ends_allocate_of (fun _ => trivial) (fun e failed path => ?_) fun s _ _ => ?_
  · rcases error_of_bind_eq_error failed with refused | ⟨_, -, none⟩
    · exact p.countable_of_checkAscending refused path
    · cases none
  · exact ends_prepare_of (fun _ _ _ => trivial)
      (fun _ e failed => coherent.countable_of_drift axis failed)
      fun _ => ends_of_forall (fun _ _ _ => trivial) fun _ _ _ => by simp

/-- Inputs are stored whole or not at all in an apt archive. -/
theorem ends_storeVariables_apt (knows : r.Knows)
    (known : r.store.producers.get? p = some record)
    (apt : r.archive.Apt p.root record.schema) :
    Ends (storeVariables p x.id x.active x.values) r
      (fun _ r' => r'.archive = r.archive ∨ ∃ n, StoredWhole r p record.schema x n r')
      (fun e r' => e.isUnencodable ∨ r' = r ∧ ∀ path, e ≠ .uncountable path) := by
  obtain ⟨layout, four⟩ := knows p record known
  have the {record'} (known' : r.store.producers.get? p = some record') : record' = record :=
    Option.some.inj (known'.symm.trans known)
  refine ends_storeVariables_of (fun _ => .inl rfl) (fun unknown => ?_) (fun _ _ _ => .inl rfl)
    (fun _ reason _ _ _ => ends_disable_of (fun _ => .inl rfl) fun _ => .inl rfl)
    (fun record' e known' failed => .inr ⟨rfl, ?_⟩)
    fun record' n known' _ drift ascending agrees counted => ?_
  · rw [known] at unknown
    cases unknown
  · obtain rfl := the known'
    rw [layout] at failed
    rcases failed with refused | failed | ⟨agrees, failed⟩
    · exact fun path => p.countable_of_checkAscending refused path
    · exact coherent.countable_of_drift (fun id denotes none => by
        have rank := apt.column id denotes
        rw [Dataset.rank, none] at rank
        cases rank) failed
    · obtain ⟨n, counted, -⟩ := apt.dims_of_drift coherent four agrees
      cases counted.symm.trans failed
  · obtain rfl := the known'
    have fit := EvaluationInputs.fit_of_checks drift (Producer.ascending_of_check ascending)
    rw [layout] at agrees counted ⊢
    obtain ⟨n', counted', dims⟩ := apt.dims_of_drift coherent four agrees
    obtain rfl := Except.ok.inj (counted'.symm.trans counted)
    refine (Archive.ends_appendInputs_apt coherent apt fit dims).mono ?_ ?_
    · exact fun _ a rowed => .inr ⟨n', storedWhole_of_rowed dims rowed⟩
    · exact fun e a unencodable => .inl unencodable

/-- Where no drift is found in an apt archive, inputs that fit are stored whole. -/
theorem ends_storeVariables_whole (knows : r.Knows)
    (known : r.store.producers.get? p = some record)
    (apt : r.archive.Apt p.root record.schema) (selected : r.store.selects p = true)
    (enabled : record.disabled = false) (fit : x.Fit record.schema)
    (agrees : r.archive.evaluationDrift record.layout record.schema = .ok none) :
    Ends (storeVariables p x.id x.active x.values) r
      (fun _ r' => ∃ n, StoredWhole r p record.schema x n r') (fun e _ => e.isUnencodable) := by
  obtain ⟨layout, four⟩ := knows p record known
  have noDrift : record.schema.inputDrift? x.active x.values = none := by
    simp [EvaluationSchema.inputDrift?, fit.functions, fit.counts]
  have ascending : p.checkAscending x.active.derivatives = .ok () := if_pos fit.ascending
  unfold storeVariables
  simp only [ends_bind, ends_get, selected, if_true, known, enabled, Bool.false_eq_true, if_false]
  unfold recordInputs
  simp only [noDrift, ascending, ends_bind, ends_liftExcept_ok, ends_get, agrees]
  rw [layout] at agrees ⊢
  obtain ⟨n, counted, dims⟩ := apt.dims_of_drift coherent four agrees
  simp only [counted, ends_liftExcept_ok, ends_onArchive]
  refine (Archive.ends_appendInputs_apt coherent apt fit dims).mono ?_ fun _ _ bad => bad
  exact fun _ a rowed => ends_modify.2 ⟨n, storedWhole_of_rowed dims rowed⟩

/-- Whoever shares the archive and whatever lies in it: as long as the datasets of an allocated
producer are apt, storing inputs gives each of them one row or changes none, and if the comparison
of extents finds no drift it is the former; only a record without a frame can stop it half-way.
Neither this nor allocating counts the rows of a dataset without axes. -/
theorem stores_inputs_whole (knows : r.Knows)
    (known : r.store.producers.get? p = some record)
    (apt : r.archive.Apt p.root record.schema) (x : EvaluationInputs) :
    Ends (storeVariables p x.id x.active x.values) r
      (fun _ r' => r'.archive = r.archive ∨ ∃ n, StoredWhole r p record.schema x n r')
      (fun e r' => e.isUnencodable ∨ r' = r ∧ ∀ path, e ≠ .uncountable path) ∧
    (r.store.selects p = true → record.disabled = false → x.Fit record.schema →
      r.archive.evaluationDrift record.layout record.schema = .ok none →
      Ends (storeVariables p x.id x.active x.values) r
        (fun _ r' => ∃ n, StoredWhole r p record.schema x n r') (fun e _ => e.isUnencodable)) ∧
    ∀ q inputs response active,
      (∀ id, r.archive.tree.denoted? (EvaluationPart.ids.path q.root) = some id →
        (r.archive.dataset id).dims ≠ []) →
      Ends (allocate q inputs response active) r (fun _ _ => True)
        (fun e _ => ∀ path, e ≠ .uncountable path) :=
  ⟨ends_storeVariables_apt coherent knows known apt,
    ends_storeVariables_whole coherent knows known apt,
    fun q inputs response active axis =>
      ends_allocate_countable coherent q axis inputs response active⟩

end

theorem Fresh.knows (fresh : r.Fresh) : r.Knows := by
  intro p record known
  rw [fresh.producers] at known
  cases known

theorem stores_inputs_whole_of_allocated : ∃ start r record, start.Fresh ∧
    r = StoreCall.after start (.allocating (.model "s" "m") {} .oneFunction) ∧
    r.archive.Coherent ∧ r.Knows ∧ r.store.producers.get? (.model "s" "m") = some record ∧
    r.archive.Apt (Producer.model "s" "m").root record.schema ∧
    (⟨7, .oneFunction, {}⟩ : EvaluationInputs).Fit record.schema ∧
    r.archive.evaluationDrift record.layout record.schema = .ok none ∧
    Ends (storeVariables (.model "s" "m") 7 .oneFunction {}) r
      (fun _ r' => ∃ n, StoredWhole r (.model "s" "m") record.schema ⟨7, .oneFunction, {}⟩ n r')
      (fun e _ => e.isUnencodable) := by
  have ready : (started {}).any (fun start =>
      (fun r => r.store.selects (.model "s" "m") &&
        (r.store.producers.get? (.model "s" "m")).any fun record =>
          !record.disabled &&
          record.schema.inputDrift? .oneFunction {} = none &&
          ((r.archive.evaluationDrift record.layout record.schema).toOption = some none))
      (StoreCall.after start (.allocating (.model "s" "m") {} .oneFunction))) := by decide +kernel
  obtain ⟨start, opened, ready⟩ := (Option.any_eq_true ..).1 ready
  have fresh := fresh_of_started rfl rfl opened
  simp only [Bool.and_eq_true, Option.any_eq_true, Bool.not_eq_true', decide_eq_true_eq] at ready
  obtain ⟨selected, record, known, ⟨enabled, noDrift⟩, agrees⟩ := ready
  replace agrees := eq_ok_of_toOption agrees
  have proper : (Producer.model "s" "m").IsProper := by decide
  have sound := fresh.sound.after (.allocating (.model "s" "m") {} .oneFunction) proper
  have coherent := sound.laidOut.sound.coherent
  have knows := fresh.knows.after (.allocating (.model "s" "m") {} .oneFunction)
  have apt := sound.laidOut.apt (Producer.segments_root proper) record.schema
  have fit : (⟨7, .oneFunction, {}⟩ : EvaluationInputs).Fit record.schema :=
    EvaluationInputs.fit_of_checks noDrift rfl
  exact ⟨start, _, record, fresh, rfl, coherent, knows, known, apt, fit, agrees,
    (stores_inputs_whole coherent knows known apt ⟨7, .oneFunction, {}⟩).2.1 selected enabled fit
      agrees⟩

/-- What another program makes in the places of a producer of one function: the masks are to be
integers. -/
def mistyped (root : Path) : Archive.Action Unit := do
  Archive.createEmpty (EvaluationPart.ids.path root) .uint64 [0] none
  Archive.createEmpty (EvaluationPart.functions.path root) .real [0, 1] none
  Archive.createEmpty (EvaluationPart.requests.path root) .real [0, 1] none

/-- Where the masks' dataset holds reals, no drift is found, and storing inputs stops after the
identifier got its row. -/
theorem stops_half_way : ∃ (start r r' : Recording) (a : Archive) (record : ProducerRecord)
    (e : StudyError), start.Fresh ∧
    mistyped (Producer.model "s" "m").root start.archive = .ok () a ∧
    r = StoreCall.after { start with archive := a }
      (.allocating (.model "s" "m") {} .oneFunction) ∧
    r.store.producers.get? (.model "s" "m") = some record ∧ record.disabled = false ∧
    r.archive.evaluationDrift record.layout record.schema = .ok none ∧
    storeVariables (.model "s" "m") 7 .oneFunction {} r = .error e r' ∧ e.isUnencodable = false ∧
    (r'.archive.at? (EvaluationPart.ids.path (Producer.model "s" "m").root)).map Dataset.rows =
      some 1 ∧
    (r'.archive.at? (EvaluationPart.functions.path (Producer.model "s" "m").root)).map
      Dataset.rows = some 0 := by
  have ready : (started {}).any (fun start =>
      (okState? (mistyped (Producer.model "s" "m").root start.archive)).any fun a =>
        (fun r => (r.store.producers.get? (.model "s" "m")).any fun record =>
          !record.disabled &&
          (r.archive.evaluationDrift record.layout record.schema).toOption = some none &&
          (failure? (storeVariables (.model "s" "m") 7 .oneFunction {} r)).any fun failed =>
            !failed.1.isUnencodable &&
            (failed.2.archive.at? (EvaluationPart.ids.path (Producer.model "s" "m").root)).map
              Dataset.rows = some 1 &&
            (failed.2.archive.at?
              (EvaluationPart.functions.path (Producer.model "s" "m").root)).map
              Dataset.rows = some 0)
        (StoreCall.after { start with archive := a }
          (.allocating (.model "s" "m") {} .oneFunction))) := by decide +kernel
  obtain ⟨start, opened, ready⟩ := (Option.any_eq_true ..).1 ready
  obtain ⟨a, made, ready⟩ := (Option.any_eq_true ..).1 ready
  obtain ⟨_, made⟩ := exists_ok_of_okState? made
  obtain ⟨record, known, ready⟩ := (Option.any_eq_true ..).1 ready
  simp only [Bool.and_eq_true, Bool.not_eq_true', decide_eq_true_eq] at ready
  obtain ⟨⟨enabled, agrees⟩, ready⟩ := ready
  obtain ⟨⟨e, r'⟩, ran, ready⟩ := (Option.any_eq_true ..).1 ready
  simp only [Bool.and_eq_true, Bool.not_eq_true', decide_eq_true_eq] at ready
  obtain ⟨⟨encodable, ids⟩, functions⟩ := ready
  exact ⟨start, _, r', a, record, e, fresh_of_started rfl rfl opened, made, rfl, known, enabled,
    eq_ok_of_toOption agrees, eq_error_of_failure? ran, encodable, ids, functions⟩

end Recording
end StudyArchive
