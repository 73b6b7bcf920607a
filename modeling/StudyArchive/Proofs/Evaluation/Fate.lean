import StudyArchive.Proofs.Evaluation.Abreast
import StudyArchive.Proofs.Evaluation.Rules
import StudyArchive.Proofs.Evaluation.Runs
/-
# What becomes of a response

A response that arrives is passed over, refused, dropped, or written into the row that waits for it.
Which of these is decided by the store alone, before anything changes (`EvaluationStore.fate`); and
what the fate is says all that the call does (`Recording.Sound.settled`).
-/

namespace StudyArchive

namespace Arrival

/-- What a row waits under. -/
def key (x : Arrival) : Producer × UInt64 := (x.producer, x.id)

/-- The call that stores the response. -/
def call (x : Arrival) : StoreCall := .storeResponse x.producer x.id x.response

/-- The recording after the call, whether it succeeds or fails. -/
def after (r : Recording) (x : Arrival) : Recording := x.call.after r

/-- What the call comes to. -/
def verdict (r : Recording) (x : Arrival) : Except StudyError Unit := outcome (x.call.run r)

end Arrival

/-! ## Fates

The fate is computed from the store before the call, and so can be compared between recordings. -/

/-- What becomes of a response. -/
inductive Fate where
  /-- No row waits for it. -/
  | passed
  /-- It is refused; its row goes on waiting. -/
  | refused (e : StudyError)
  /-- It does not fit: its row is given up, and its producer's evaluations are stored no more. -/
  | dropped
  /-- It goes into its row. -/
  | written (s : EvaluationSchema) (row : Nat)

namespace Fate

/-- Whether the row does not wait any more. -/
def frees : Fate → Bool
  | dropped | written .. => true
  | passed | refused _ => false

/-- Whether the producer's evaluations are stored no more. -/
def disables : Fate → Bool
  | dropped => true
  | passed | refused _ | written .. => false

/-- What is done to the archive. -/
def write (x : Arrival) : Fate → Archive.Action Unit
  | written s row =>
    Recording.writeResponse (EvaluationLayout.ofSchema x.producer s) s x.response row
  | passed | refused _ | dropped => pure ()

/-- What the call comes to, given what the archive answers. -/
def verdict (answer : Except StorageError Unit) : Fate → Except StudyError Unit
  | refused e => .error e
  | passed | dropped | written .. => answer.mapError .storage

theorem together (x : Arrival) (f : Fate) {a₀ b₀ a b : Archive}
    (h : Archive.Abreast a₀ b₀ a b) :
    Together (Archive.Abreast a₀ b₀) (f.write x) (f.write x) a b := by
  cases f with
  | written s row => exact h.writeResponse x.producer s x.response row
  | _ => exact together_pure h

end Fate

/-- The fate of a response whose row waits, given what is known of its producer. -/
def ProducerRecord.fate (record : ProducerRecord) (x : Arrival) (row : Nat) : Fate :=
  if record.schema.responseDrift? x.response = none then
    match record.check x with
    | .ok _ => .written record.schema row
    | .error e => .refused e
  else .dropped

def EvaluationStore.fate (s : EvaluationStore) (x : Arrival) : Fate :=
  if s.selects x.producer then
    match s.slots.get? x.key, s.producers.get? x.producer with
    | none, _ => .passed
    | some _, none => .refused (.noEntry x.producer.text)
    | some row, some record => record.fate x row
  else .passed

namespace Arrival

variable {s : EvaluationStore} (x : Arrival) {record : ProducerRecord} {row : Nat}

theorem fate_of_unselected (h : s.selects x.producer = false) : s.fate x = .passed :=
  if_neg (by simp [h])

section
variable (selected : s.selects x.producer = true)

include selected

theorem fate_of_free (free : s.slots.get? (x.producer, x.id) = none) : s.fate x = .passed := by
  unfold EvaluationStore.fate key
  rw [if_pos selected, free]

theorem fate_of_unknown (waits : s.slots.get? (x.producer, x.id) = some row)
    (unknown : s.producers.get? x.producer = none) :
    s.fate x = .refused (.noEntry x.producer.text) := by
  unfold EvaluationStore.fate key
  rw [if_pos selected, waits, unknown]

variable (waits : s.slots.get? (x.producer, x.id) = some row)
  (known : s.producers.get? x.producer = some record)

include waits known

theorem fate_of_known : s.fate x = record.fate x row := by
  unfold EvaluationStore.fate key
  rw [if_pos selected, waits, known]

theorem fate_of_drift {reason : String}
    (drift : record.schema.responseDrift? x.response = some reason) : s.fate x = .dropped := by
  rw [x.fate_of_known selected waits known]
  exact if_neg (by simp [drift])

theorem fate_of_failed {e : StudyError}
    (fits : record.schema.responseDrift? x.response = none) (fails : record.check x = .error e) :
    s.fate x = .refused e := by
  rw [x.fate_of_known selected waits known, ProducerRecord.fate, if_pos fits, fails]

theorem fate_of_passed (fits : record.schema.responseDrift? x.response = none)
    (passes : record.check x = .ok ()) : s.fate x = .written record.schema row := by
  rw [x.fate_of_known selected waits known, ProducerRecord.fate, if_pos fits, passes]

end

end Arrival

/-- What is known of a producer whose evaluations are stored no more. -/
def ProducerRecord.retired (record : ProducerRecord) : ProducerRecord :=
  { record with disabled := true }

/-- Where the same row waits for a response, and of its producer at most that is new that its
evaluations are stored no more, the response has the fate that it had. -/
theorem EvaluationStore.fate_eq {s s' : EvaluationStore} {x : Arrival} {retires : Prop}
    [Decidable retires] (selects : s'.selects x.producer = s.selects x.producer)
    (slots : s'.slots.get? x.key = s.slots.get? x.key)
    (producers : s'.producers.get? x.producer =
      if retires then (s.producers.get? x.producer).map .retired
      else s.producers.get? x.producer) :
    s'.fate x = s.fate x := by
  unfold fate
  rw [selects, slots]
  split at producers
  · rw [producers]
    cases s.slots.get? x.key <;> cases s.producers.get? x.producer <;> rfl
  · rw [producers]

namespace Recording

variable {r : Recording} {x : Arrival}

/-! ## What follows from a fate -/

/-- What the call does to a response with a fate. -/
structure Settled (x : Arrival) (f : Fate) (r : Recording)
    (result : EStateM.Result StudyError Recording Unit) : Prop where
  archive : (stateAfter result).archive = stateAfter (f.write x r.archive)
  verdict : outcome result = f.verdict (outcome (f.write x r.archive))
  selects : ∀ p, (stateAfter result).store.selects p = r.store.selects p
  slots : ∀ key, (stateAfter result).store.slots.get? key =
    if f.frees ∧ x.key = key then none else r.store.slots.get? key
  producers : ∀ p, (stateAfter result).store.producers.get? p =
    if f.disables ∧ x.producer = p then (r.store.producers.get? p).map .retired
    else r.store.producers.get? p

theorem settled_passed : Settled x .passed r (.ok () r) :=
  ⟨rfl, rfl, fun _ => rfl, fun _ => by simp [Fate.frees, stateAfter],
    fun _ => by simp [Fate.disables, stateAfter]⟩

theorem settled_refused (e : StudyError) : Settled x (.refused e) r (.error e r) :=
  ⟨rfl, rfl, fun _ => rfl, fun _ => by simp [Fate.frees, stateAfter],
    fun _ => by simp [Fate.disables, stateAfter]⟩

/-- The slots after a row was given up. -/
theorem slots_freed (r : Recording) (x : Arrival) {f : Fate} (frees : f.frees = true)
    (key : Producer × UInt64) : (r.freed x.producer x.id).store.slots.get? key =
      if f.frees ∧ x.key = key then none else r.store.slots.get? key := by
  rw [freed, EvaluationStore.abandon, Table.get?_erase]
  simp [frees, Arrival.key]

/-- A response that does not fit costs its row, and its producer's further evaluations. -/
theorem settled_dropped {record : ProducerRecord}
    (known : r.store.producers.get? x.producer = some record) (reason : String) :
    Settled x .dropped r (disable x.producer record x.id reason (r.freed x.producer x.id)) := by
  -- The producer may be disabled already.
  refine (ends_result (P := Settled x .dropped r)).1
    (ends_disable_of (fun before => ?_) fun _ => ?_)
  · refine ⟨rfl, rfl, fun _ => rfl, slots_freed r x rfl, fun p => ?_⟩
    split
    · next own =>
      obtain ⟨-, rfl⟩ := own
      have kept : record.retired = record := by rw [ProducerRecord.retired, ← before]
      rw [known, Option.map_some, kept]
      exact known
    · rfl
  · refine ⟨rfl, rfl, fun _ => rfl, slots_freed r x rfl, fun p => ?_⟩
    refine (Table.get?_insert ..).trans ?_
    by_cases own : x.producer = p
    · subst own
      rw [if_pos rfl, if_pos ⟨rfl, rfl⟩, known]
      rfl
    · rw [if_neg own, if_neg fun both => own both.2]
      rfl

/-- A response that fits goes into the row that waits for it. -/
theorem settled_written (s : EvaluationSchema) (row : Nat) :
    Settled x (.written s row) r (onArchive
      (writeResponse (EvaluationLayout.ofSchema x.producer s) s x.response row)
      (r.freed x.producer x.id)) := by
  have slots := slots_freed r x (f := .written s row) rfl
  unfold onArchive
  cases ran : writeResponse (EvaluationLayout.ofSchema x.producer s) s x.response row
    (r.freed x.producer x.id).archive with
  | ok v a =>
    have wrote : (Fate.written s row).write x r.archive = .ok v a := ran
    exact ⟨by rw [wrote]; rfl, by rw [wrote]; rfl, fun _ => rfl, slots, fun _ => rfl⟩
  | error e a =>
    have wrote : (Fate.written s row).write x r.archive = .error e a := ran
    exact ⟨by rw [wrote]; rfl, by rw [wrote]; rfl, fun _ => rfl, slots, fun _ => rfl⟩

theorem Sound.settled (sound : r.Sound) (x : Arrival) :
    Settled x (r.store.fate x) r (x.call.run r) := by
  refine (ends_result (P := Settled x (r.store.fate x) r)).1 (ends_storeResponse_of
    (fun unselected => ?_) (fun selected free => ?_) (fun row selected waits unknown => ?_)
    (fun row record reason selected waits known drift => ?_)
    (fun row record e selected waits known fits fails => ?_)
    fun row record selected waits known fits passes => ?_)
  · rw [x.fate_of_unselected unselected]
    exact settled_passed
  · rw [x.fate_of_free selected free]
    exact settled_passed
  · rw [x.fate_of_unknown selected waits unknown]
    exact settled_refused _
  · rw [x.fate_of_drift selected waits known drift]
    exact ends_result.2 (settled_dropped known reason)
  · rw [x.fate_of_failed selected waits known fits fails]
    exact settled_refused e
  · rw [x.fate_of_passed selected waits known fits passes, (sound.known _ _ known).1.layout]
    exact ends_result.2 (settled_written record.schema row)

end Recording
end StudyArchive
