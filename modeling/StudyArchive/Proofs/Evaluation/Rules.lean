import StudyArchive.Evaluation.Store
import StudyArchive.Proofs.Step
/-
# Rules for the calls of the store

A call of the store looks something up, checks what it was given, asks the archive, and puts down
what came of it.  There is one rule here for each call and for each step that they share.  A rule
has a premise for every way that the call can go: the premise says what is known on that way, and
what has to be shown of the state that it leads to.  A way that ends in the archive is left to the
archive, and the premise says what that has to come to.

Whatever is shown of what comes of a call is shown by its rule: that evaluations are left alone
(`Recording.Quiet`), what a producer's datasets get (`Recording.InputsEnd`, `ResponseEnd`), what the
store knows of its producers (`Recording.Knows`), and which way was taken
(`Recording.InputsCourse`, `ResponseCourse`).
-/

namespace StudyArchive

/-- A response that arrives for an evaluation of a producer. -/
structure Arrival where
  producer : Producer
  id : UInt64
  response : Response

/-- The checks of a response's derivatives. -/
def ProducerRecord.check (record : ProducerRecord) (x : Arrival) : Except StudyError Unit := do
  x.producer.checkAscending x.response.active.derivatives
  Recording.checkGradients record.layout x.response record.schema.gradientIndices
  Recording.checkHessians record.layout x.response record.schema.hessianIndices

/-- What the checks were, if a response passed them. -/
theorem ProducerRecord.check_eq_ok {record : ProducerRecord} {x : Arrival}
    (h : record.check x = .ok ()) :
    x.producer.checkAscending x.response.active.derivatives = .ok () ∧
    Recording.checkGradients record.layout x.response record.schema.gradientIndices = .ok () ∧
    Recording.checkHessians record.layout x.response record.schema.hessianIndices = .ok () := by
  obtain ⟨_, ascending, h⟩ := exists_of_bind_eq_ok h
  obtain ⟨_, gradients, hessians⟩ := exists_of_bind_eq_ok h
  exact ⟨ascending, gradients, hessians⟩

/-- Allocating is for producers that are stored and not known yet. -/
theorem EvaluationStore.isNew_of_unknown {t : EvaluationStore} {p : Producer}
    (selected : t.selects p = true)
    (unknown : t.producers.get? p = none) :
    (t.selects p && !t.producers.contains p) = true := by
  simp [selected, Table.contains, unknown]

namespace Recording

variable {r : Recording} {p : Producer} {id : UInt64}

theorem ends_onArchive {α : Type} {act : Archive.Action α} {good : α → Recording → Prop}
    {bad : StudyError → Recording → Prop} :
    Ends (onArchive act) r good bad ↔
      Ends act r.archive (fun v a => good v { r with archive := a })
        (fun e a => bad (.storage e) { r with archive := a }) := by
  unfold Ends onArchive
  cases act r.archive <;> exact Iff.rfl

variable {good : Unit → Recording → Prop} {bad : StudyError → Recording → Prop}

/-- No further evaluations of a producer are stored, which is told once. -/
theorem ends_disable_of {record : ProducerRecord} {reason : String}
    (already : record.disabled = true → good () r)
    (first : record.disabled = false → good ()
      { r with
        notices := r.notices ++ [.drift p.text id reason]
        store := { r.store with
          producers := r.store.producers.insert p { record with disabled := true } } }) :
    Ends (disable p record id reason) r good bad := by
  unfold disable
  split
  · next disabled => exact ends_pure.2 (already disabled)
  · next enabled =>
    exact ends_bind.2 (ends_modify.2 (ends_modify.2 (first (Bool.eq_false_iff.2 enabled))))

/-! ## Allocating

Four ways: the producer is not selected or known already, its schema cannot be captured, datasets
are there, or they are made. -/

/-- The datasets of a producer are compared with a schema if there are any, and else they are
made. -/
theorem ends_prepare_of {l : EvaluationLayout} {s : EvaluationSchema} {inputs : Variables}
    {response : Response} {good : Option String → Recording → Prop}
    (compared : r.archive.contains l.ids = true → ∀ mismatch,
      r.archive.evaluationDrift l s = .ok mismatch → good mismatch r)
    (refused : r.archive.contains l.ids = true → ∀ e,
      r.archive.evaluationDrift l s = .error e → bad e r)
    (made : r.archive.contains l.ids = false →
      Ends (Archive.createEvaluations l s inputs response) r.archive
        (fun _ a => good none { r with archive := a })
        (fun e a => bad (.storage e) { r with archive := a })) :
    Ends (prepare l s inputs response) r good bad := by
  unfold prepare
  refine ends_bind.2 (ends_get.2 (ends_ite.2 ⟨fun there => ?_, fun absent => ?_⟩))
  · exact ends_liftExcept.2 ⟨compared there, refused there⟩
  · exact ends_bind.2 (ends_onArchive.2 ((made (Bool.eq_false_iff.2 absent)).mono
      (fun _ _ h => ends_pure.2 h) fun _ _ h => h))

/-- A producer that is stored and not known yet gets a schema, and its datasets are seen to. -/
theorem ends_allocate_of {inputs : Variables} {response : Response} {active : ActiveSet}
    (old : ¬(r.store.selects p && !r.store.producers.contains p) = true → good () r)
    (uncaptured : ∀ e, EvaluationSchema.capture p inputs response active = .error e → bad e r)
    (new : ∀ s, r.store.producers.get? p = none →
      EvaluationSchema.capture p inputs response active = .ok s →
      Ends (prepare (.ofSchema p s) s inputs response) r
        (fun mismatch r' => good ()
          { r' with
            notices := r'.notices ++ mismatch.toList.map (.unfitStorage p.text)
            store := { r'.store with
              producers := r'.store.producers.insert p
                ⟨s, .ofSchema p s, mismatch.isSome⟩ } }) bad) :
    Ends (allocate p inputs response active) r good bad := by
  unfold allocate
  refine ends_bind.2 (ends_get.2 (ends_ite.2 ⟨fun isNew => ?_, fun isOld =>
    ends_pure.2 (old isOld)⟩))
  have unknown : r.store.producers.get? p = none := by
    simp only [Bool.and_eq_true, Bool.not_eq_true', Table.contains] at isNew
    exact Option.not_isSome_iff_eq_none.1 (by simp [isNew.2])
  refine ends_bind.2 (ends_liftExcept.2 ⟨fun s captured => ?_, uncaptured⟩)
  -- A mismatch is told before the record is put down; without one there is nothing to tell.
  refine ends_bind.2 ((new s unknown captured).mono (fun mismatch r' put => ?_) fun _ _ h => h)
  cases mismatch with
  | none =>
    simp only [Option.toList_none, List.map_nil, List.append_nil] at put
    exact ends_modify.2 put
  | some reason => exact ends_bind.2 (ends_modify.2 (ends_modify.2 put))

/-- A producer that is to be stored, and is not known, gets the schema that was captured. -/
theorem ends_allocate_of_captured {inputs : Variables} {response : Response} {active : ActiveSet}
    {s : EvaluationSchema} (selected : r.store.selects p = true)
    (unknown : r.store.producers.get? p = none)
    (captured : EvaluationSchema.capture p inputs response active = .ok s)
    (prepared : Ends (prepare (.ofSchema p s) s inputs response) r
      (fun mismatch r' => good ()
        { r' with
          notices := r'.notices ++ mismatch.toList.map (.unfitStorage p.text)
          store := { r'.store with
            producers := r'.store.producers.insert p
              ⟨s, .ofSchema p s, mismatch.isSome⟩ } }) bad) :
    Ends (allocate p inputs response active) r good bad := by
  have isNew := EvaluationStore.isNew_of_unknown selected unknown
  refine ends_allocate_of (fun isOld => absurd isNew isOld) (fun e failed => ?_)
    fun s' _ captured' => ?_
  · cases captured.symm.trans failed
  · cases captured.symm.trans captured'
    exact prepared

/-! ## Storing evaluations

The checks come first, and whatever they find, the archive is not asked. -/

/-- Inputs are passed over, refused, or appended, or they do not fit. -/
theorem ends_storeVariables_of {active : ActiveSet} {inputs : Variables}
    (unselected : r.store.selects p = false → good () r)
    (unknown : r.store.producers.get? p = none → bad (.noEntry p.text) r)
    (disabled : ∀ record, r.store.producers.get? p = some record → record.disabled = true →
      good () r)
    (strays : ∀ record reason, r.store.producers.get? p = some record →
      record.disabled = false →
      record.schema.inputDrift? active inputs = some reason ∨
        r.archive.evaluationDrift record.layout record.schema = .ok (some reason) →
      Ends (disable p record id reason) r good bad)
    (refused : ∀ record e, r.store.producers.get? p = some record →
      p.checkAscending active.derivatives = .error e ∨
        r.archive.evaluationDrift record.layout record.schema = .error e ∨
        r.archive.evaluationDrift record.layout record.schema = .ok none ∧
          r.archive.countRows record.layout.ids = .error e → bad e r)
    (appends : ∀ record n, r.store.producers.get? p = some record → record.disabled = false →
      record.schema.inputDrift? active inputs = none →
      p.checkAscending active.derivatives = .ok () →
      r.archive.evaluationDrift record.layout record.schema = .ok none →
      r.archive.countRows record.layout.ids = .ok n →
      Ends (appendInputs record.layout record.schema id active inputs) r.archive
        (fun _ a => good ()
          { r with
            archive := a
            store := { r.store with slots := r.store.slots.insert (p, id) n } })
        (fun e a => bad (.storage e) { r with archive := a })) :
    Ends (storeVariables p id active inputs) r good bad := by
  unfold storeVariables
  refine ends_bind.2 (ends_get.2 (ends_ite.2 ⟨fun _ => ?_, fun h =>
    ends_pure.2 (unselected (Bool.eq_false_iff.2 h))⟩))
  cases known : r.store.producers.get? p with
  | none => exact ends_throw.2 (unknown known)
  | some record =>
    refine ends_ite.2 ⟨fun h => ends_pure.2 (disabled record known h), fun enabled => ?_⟩
    replace enabled := Bool.eq_false_iff.2 enabled
    unfold recordInputs
    cases drift : record.schema.inputDrift? active inputs with
    | some reason => exact strays record reason known enabled (.inl drift)
    | none =>
      refine ends_bind.2 (ends_liftExcept.2 ⟨fun _ ascending => ?_, fun e h =>
        refused record e known (.inl h)⟩)
      refine ends_bind.2 (ends_get.2 (ends_bind.2 (ends_liftExcept.2 ⟨fun found agrees => ?_,
        fun e h => refused record e known (.inr (.inl h))⟩)))
      cases found with
      | some reason => exact strays record reason known enabled (.inr agrees)
      | none =>
        refine ends_bind.2 (ends_liftExcept.2 ⟨fun n counted => ?_, fun e h =>
          refused record e known (.inr (.inr ⟨agrees, h⟩))⟩)
        exact ends_bind.2 (ends_onArchive.2
          ((appends record n known enabled drift ascending agrees counted).mono
            (fun _ _ h => ends_modify.2 h) fun _ _ h => h))

/-- The recording without an evaluation's slot. -/
def freed (r : Recording) (p : Producer) (id : UInt64) : Recording :=
  { r with store := (r.store.abandon p id).2 }

theorem ends_check {record : ProducerRecord} {response : Response} {rest : Action Unit}
    (passes : record.check ⟨p, id, response⟩ = .ok () → Ends rest r good bad)
    (fails : ∀ e, record.check ⟨p, id, response⟩ = .error e → bad e r) :
    Ends (do
      liftExcept (p.checkAscending response.active.derivatives)
      liftExcept (checkGradients record.layout response record.schema.gradientIndices)
      liftExcept (checkHessians record.layout response record.schema.hessianIndices)
      rest) r good bad := by
  unfold ProducerRecord.check at passes fails
  simp only at passes fails
  refine ends_bind.2 (ends_liftExcept.2 ⟨fun _ ascends => ?_, fun e failed => fails e ?_⟩)
  swap
  · rw [failed]
    rfl
  rw [ascends] at passes fails
  refine ends_bind.2 (ends_liftExcept.2 ⟨fun _ gradients => ?_, fun e failed => fails e ?_⟩)
  swap
  · rw [failed]
    rfl
  rw [gradients] at passes fails
  exact ends_bind.2 (ends_liftExcept.2 ⟨fun _ hessians => passes hessians, fails⟩)

/-- A response is passed over, refused, or written into its row, or it does not fit and costs its
row. -/
theorem ends_storeResponse_of {response : Response}
    (unselected : r.store.selects p = false → good () r)
    (free : r.store.selects p = true → r.store.slots.get? (p, id) = none → good () r)
    (unknown : ∀ row, r.store.selects p = true → r.store.slots.get? (p, id) = some row →
      r.store.producers.get? p = none → bad (.noEntry p.text) r)
    (drops : ∀ row record reason, r.store.selects p = true →
      r.store.slots.get? (p, id) = some row → r.store.producers.get? p = some record →
      record.schema.responseDrift? response = some reason →
      Ends (disable p record id reason) (r.freed p id) good bad)
    (refused : ∀ row record e, r.store.selects p = true →
      r.store.slots.get? (p, id) = some row → r.store.producers.get? p = some record →
      record.schema.responseDrift? response = none →
      record.check ⟨p, id, response⟩ = .error e → bad e r)
    (writes : ∀ row record, r.store.selects p = true →
      r.store.slots.get? (p, id) = some row → r.store.producers.get? p = some record →
      record.schema.responseDrift? response = none →
      record.check ⟨p, id, response⟩ = .ok () →
      Ends (onArchive (writeResponse record.layout record.schema response row)) (r.freed p id)
        good bad) :
    Ends (storeResponse p id response) r good bad := by
  unfold storeResponse
  refine ends_bind.2 (ends_get.2 (ends_ite.2 ⟨fun selected => ?_, fun h =>
    ends_pure.2 (unselected (Bool.eq_false_iff.2 h))⟩))
  cases waits : r.store.slots.get? (p, id) with
  | none => exact ends_pure.2 (free selected waits)
  | some row =>
    cases known : r.store.producers.get? p with
    | none => exact ends_throw.2 (unknown row selected waits known)
    | some record =>
      show Ends (recordResponse p record id row response) r good bad
      unfold recordResponse
      cases drift : record.schema.responseDrift? response with
      | some reason =>
        exact ends_bind.2 (ends_modify.2 (drops row record reason selected waits known drift))
      | none =>
        refine ends_check (fun passes => ?_) fun e fails =>
          refused row record e selected waits known drift fails
        exact ends_bind.2 (ends_modify.2 (writes row record selected waits known drift passes))

end Recording
end StudyArchive
