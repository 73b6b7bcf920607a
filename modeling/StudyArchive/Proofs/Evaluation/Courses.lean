import StudyArchive.Proofs.Evaluation.Fate
/-
# The courses that calls take

What a call of the store of evaluations may come to, in whatever archive and whatever the store
knows: one inductive predicate for each kind of call that can go more than one way
(`Recording.Allocation`, `InputsCourse`, `ResponseCourse`).  What follows about notices, slots and
datasets is read off the cases.

The archive of a store is shared: between two calls, others may leave it in whatever state.  A run
of a store is a list of turns, which are calls and such changes.
-/

namespace StudyArchive

open EvaluationLayout

def StoreCall.producer? : StoreCall → Option Producer
  | allocate p _ _ _ | storeVariables p _ | storeResponse p _ _ | abandon p _
  | storeParameters p _ => some p
  | declareSource .. | addMethodModel _ | setTopModel _ | select .. => none

/-- What happens while a store is in use: a call of it, or a change of its archive by others. -/
inductive Turn where
  | call (c : StoreCall)
  | elsewhere (a : Archive)

namespace Turn

def producer? : Turn → Option Producer
  | call c => c.producer?
  | elsewhere _ => none

/-- The recording after a turn. -/
def after (r : Recording) : Turn → Recording
  | call c => c.after r
  | elsewhere a => { r with archive := a }

/-- The recording after turns one after the other. -/
def afterAll (r : Recording) (turns : List Turn) : Recording := turns.foldl after r

end Turn

namespace Recording

variable {r r' : Recording} {p : Producer} {x : EvaluationInputs} {α : Type}

def withArchive (r : Recording) (a : Archive) : Recording := { r with archive := a }

theorem onArchive_of_ok {act : Archive.Action α} {v : α} {a : Archive}
    (ran : act r.archive = .ok v a) : onArchive act r = .ok v (r.withArchive a) := by
  unfold onArchive
  rw [ran]
  rfl

theorem onArchive_of_error {act : Archive.Action α} {e : StorageError} {a : Archive}
    (ran : act r.archive = .error e a) :
    onArchive act r = .error (.storage e) (r.withArchive a) := by
  unfold onArchive
  rw [ran]
  rfl

theorem stateAfter_onArchive (act : Archive.Action α) (r : Recording) :
    stateAfter (onArchive act r) = r.withArchive (stateAfter (act r.archive)) := by
  cases ran : act r.archive with
  | ok v a => rw [onArchive_of_ok ran]; rfl
  | error e a => rw [onArchive_of_error ran]; rfl

/-- What is left of a producer's further evaluations when one does not fit. -/
inductive Retired (r : Recording) (p : Producer) (record : ProducerRecord) (id : UInt64)
    (reason : String) : Recording → Prop
  | already (disabled : record.disabled = true) : Retired r p record id reason r
  | first (enabled : record.disabled = false) : Retired r p record id reason
      { r with
        notices := r.notices ++ [.drift p.text id reason]
        store := { r.store with producers := r.store.producers.insert p record.retired } }

/-- What allocating comes to.  The archive is the one that was there, or the one in which the
datasets were made, successfully or not. -/
inductive Allocation (r : Recording) (p : Producer) : Recording → Prop
  | kept {a : Archive}
      (made : a = r.archive ∨ ∃ s inputs response,
        a = stateAfter (Archive.createEvaluations (ofSchema p s) s inputs response r.archive)) :
      Allocation r p (r.withArchive a)
  | allocated {a : Archive} {record : ProducerRecord} {mismatch : Option String}
      (made : a = r.archive ∨ ∃ s inputs response,
        a = stateAfter (Archive.createEvaluations (ofSchema p s) s inputs response r.archive))
      (unknown : r.store.producers.get? p = none) (disabled : record.disabled = mismatch.isSome) :
      Allocation r p
        { archive := a
          notices := r.notices ++ mismatch.toList.map (.unfitStorage p.text)
          store := { r.store with producers := r.store.producers.insert p record } }

/-- What storing inputs comes to. -/
inductive InputsCourse (r : Recording) (p : Producer) (x : EvaluationInputs) :
    EStateM.Result StudyError Recording Unit → Prop
  | passed : InputsCourse r p x (.ok () r)
  | refused (e : StudyError) : InputsCourse r p x (.error e r)
  | strayed {record : ProducerRecord} {reason : String} {r' : Recording}
      (known : r.store.producers.get? p = some record) (enabled : record.disabled = false)
      (retired : Retired r p record x.id reason r') : InputsCourse r p x (.ok () r')
  | reserved {record : ProducerRecord} {n : Nat} {a : Archive}
      (known : r.store.producers.get? p = some record) (enabled : record.disabled = false)
      (fit : x.Fit record.schema)
      (agrees : r.archive.evaluationDrift record.layout record.schema = .ok none)
      (counted : r.archive.countRows record.layout.ids = .ok n)
      (appended : appendInputs record.layout record.schema x.id x.active x.values r.archive =
        .ok () a) :
      InputsCourse r p x (.ok () { r with
        archive := a
        store := { r.store with slots := r.store.slots.insert (p, x.id) n } })
  | cut {record : ProducerRecord} {e : StorageError} {a : Archive}
      (known : r.store.producers.get? p = some record) (enabled : record.disabled = false)
      (fit : x.Fit record.schema)
      (agrees : r.archive.evaluationDrift record.layout record.schema = .ok none)
      (failed : appendInputs record.layout record.schema x.id x.active x.values r.archive =
        .error e a) : InputsCourse r p x (.error (.storage e) (r.withArchive a))

/-- What storing a response comes to. -/
inductive ResponseCourse (r : Recording) (x : Arrival) :
    EStateM.Result StudyError Recording Unit → Prop
  | passed (fate : r.store.fate x = .passed) : ResponseCourse r x (.ok () r)
  | refused (e : StudyError) (fate : r.store.fate x = .refused e) : ResponseCourse r x (.error e r)
  | dropped {record : ProducerRecord} {reason : String} {r' : Recording}
      (fate : r.store.fate x = .dropped)
      (known : r.store.producers.get? x.producer = some record)
      (retired : Retired (r.freed x.producer x.id) x.producer record x.id reason r') :
      ResponseCourse r x (.ok () r')
  | written {record : ProducerRecord} {row : Nat}
      (fate : r.store.fate x = .written record.schema row)
      (known : r.store.producers.get? x.producer = some record) :
      ResponseCourse r x
        (onArchive (writeResponse record.layout record.schema x.response row)
          (r.freed x.producer x.id))

/-! ## Each call takes one of its courses -/

theorem ends_retired (r : Recording) (p : Producer) (record : ProducerRecord) (id : UInt64)
    (reason : String) :
    Ends (disable p record id reason) r (fun _ => Retired r p record id reason)
      (fun _ _ => False) :=
  ends_disable_of .already .first

theorem ends_allocate_course (r : Recording) (p : Producer) (inputs : Variables)
    (response : Response) (active : ActiveSet) :
    Ends (allocate p inputs response active) r (fun _ => Allocation r p)
      (fun _ => Allocation r p) := by
  have same : Allocation r p r := .kept (.inl rfl)
  refine ends_allocate_of (fun _ => same) (fun _ _ => same) fun s unknown _ => ?_
  refine ends_prepare_of (fun _ mismatch _ => .allocated (.inl rfl) unknown rfl)
    (fun _ _ _ => same) fun _ => ends_of_forall (fun _ a ran => ?_) fun _ a ran => ?_
  · exact .allocated (.inr ⟨s, inputs, response, by rw [ran]; rfl⟩) unknown rfl
  · exact .kept (.inr ⟨s, inputs, response, by rw [ran]; rfl⟩)

/-- Storing parameters is passed over, or a matter of the archive. -/
theorem storeParameters_eq (r : Recording) (p : Producer) (parameters : VariableParameters) :
    storeParameters p parameters r =
      if r.store.selects p && !parameters.isEmpty then
        onArchive (parameters.kinds.forM
          (writeTable ((p.root.join "properties").join "variable_parameters") parameters)) r
      else .ok () r := by
  unfold storeParameters
  rw [get_bind]
  split <;> rfl

theorem ends_storeVariables_course (r : Recording) (p : Producer) (x : EvaluationInputs) :
    Ends (storeVariables p x.id x.active x.values) r
      (fun _ r' => InputsCourse r p x (.ok () r'))
      (fun e r' => InputsCourse r p x (.error e r')) := by
  refine ends_storeVariables_of (fun _ => .passed) (fun _ => .refused _) (fun _ _ _ => .passed)
    (fun record reason known enabled _ => ?_) (fun _ e _ _ => .refused e)
    fun record n known enabled drift ascends agrees counted => ?_
  · exact (ends_retired r p record x.id reason).mono
      (fun _ _ retired => .strayed known enabled retired) fun _ _ => False.elim
  · have fit := EvaluationInputs.fit_of_checks drift (Producer.ascending_of_check ascends)
    exact ends_of_forall
      (fun _ a appended => .reserved known enabled fit agrees counted appended)
      fun e a failed => .cut known enabled fit agrees failed

theorem course_storeResponse (r : Recording) (x : Arrival) : ResponseCourse r x (x.call.run r) := by
  refine (ends_result (P := ResponseCourse r x)).1 (ends_storeResponse_of
    (fun unselected => .passed (x.fate_of_unselected unselected))
    (fun selected free => .passed (x.fate_of_free selected free))
    (fun row selected waits unknown => .refused _ (x.fate_of_unknown selected waits unknown))
    (fun row record reason selected waits known drift => ?_)
    (fun row record e selected waits known fits fails =>
      .refused e (x.fate_of_failed selected waits known fits fails))
    fun row record selected waits known fits passes => ?_)
  · have fate := x.fate_of_drift selected waits known drift
    exact (ends_retired (r.freed x.producer x.id) x.producer record x.id reason).mono
      (fun _ _ retired => .dropped fate known retired) fun _ _ => False.elim
  · exact ends_result.2 (.written (x.fate_of_passed selected waits known fits passes) known)

end Recording
end StudyArchive
