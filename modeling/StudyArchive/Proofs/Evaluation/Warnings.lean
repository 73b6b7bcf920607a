import Mathlib.Tactic.Ring
import StudyArchive.Proofs.Evaluation.Courses
/-
# Drift is warned of once

A producer whose evaluations do not fit is warned of, and none of its evaluations is stored from
then on: the flag that says so is set together with the notice, and nothing takes it back.  So the
notices about a producer and its flag make up a sum that no turn raises above one
(`Recording.Heeded`), whatever the archive is and whoever changes it meanwhile
(`Recording.drift_stops_storage`).  What was sent out before is still taken: a response goes the
same way with the flag and without it (`Recording.enabled_storeResponse`).
-/

namespace StudyArchive

/-- A notice about a producer's schema. -/
def StoreNotice.IsAbout (n : StoreNotice) (p : Producer) : Prop := ("producer", p.text) ∈ n.fields

namespace Recording

variable {r r' r'' : Recording} {p : Producer} {record : ProducerRecord} {owner : Option Producer}

/-! ## Notices

Warnings are counted over a run and compared with the flag at its beginning and its end. -/

/-- The number of flags of a producer: one if its evaluations are no longer stored. -/
def flags (r : Recording) (p : Producer) : Nat := (r.store.isDisabled p).toNat

theorem flags_le_one (r : Recording) (p : Producer) : r.flags p ≤ 1 := Bool.toNat_le _

theorem flags_of_producers (same : r'.store.producers = r.store.producers) (p : Producer) :
    r'.flags p = r.flags p := by
  unfold flags EvaluationStore.isDisabled
  rw [same]

theorem flags_of_get? (known : r.store.producers.get? p = some record) :
    r.flags p = record.disabled.toNat := by
  unfold flags
  rw [EvaluationStore.isDisabled_of_get? known]

theorem flags_of_insert {q : Producer}
    (put : r'.store.producers = r.store.producers.insert q record) (p : Producer) :
    r'.flags p = if q = p then record.disabled.toNat else r.flags p := by
  unfold flags EvaluationStore.isDisabled
  rw [put, Table.get?_insert]
  by_cases own : q = p
  · rw [if_pos own, if_pos own]
  · rw [if_neg own, if_neg own]

/-- A step gives notices about the producer that it is about only, and each of them with a flag that
was not set. -/
structure Heeded (owner : Option Producer) (r r' : Recording) (new : List StoreNotice) : Prop where
  notices : r'.notices = r.notices ++ new
  about : ∀ n ∈ new, ∃ p, owner = some p ∧ n.IsAbout p
  flags : ∀ p, (if owner = some p then new.length else 0) + r.flags p ≤ r'.flags p

theorem heeded_of_eq (notices : r'.notices = r.notices)
    (producers : r'.store.producers = r.store.producers) : Heeded owner r r' [] where
  notices := by rw [notices, List.append_nil]
  about _ mem := absurd mem (List.not_mem_nil)
  flags p := by
    rw [flags_of_producers producers]
    split <;> simp

/-- A producer that was not flagged is put down, with at most one notice, and that with its flag. -/
theorem heeded_of_insert {new : List StoreNotice} (about : ∀ n ∈ new, n.IsAbout p)
    (before : r.flags p = 0) (notices : r'.notices = r.notices ++ new)
    (producers : r'.store.producers = r.store.producers.insert p record)
    (flagged : new.length ≤ record.disabled.toNat) : Heeded (some p) r r' new where
  notices := notices
  about n mem := ⟨p, rfl, about n mem⟩
  flags q := by
    rw [flags_of_insert producers]
    by_cases own : p = q
    · subst own
      rwa [if_pos rfl, if_pos rfl, before]
    · rw [if_neg fun same => own (Option.some.inj same), if_neg own, Nat.zero_add]

theorem Retired.heeded {id : UInt64} {reason : String} (h : Retired r p record id reason r')
    (known : r.store.producers.get? p = some record) : ∃ new, Heeded (some p) r r' new := by
  cases h with
  | already _ => exact ⟨[], heeded_of_eq rfl rfl⟩
  | first enabled =>
    have before : r.flags p = 0 := by
      rw [flags_of_get? known, enabled]
      rfl
    refine ⟨_, heeded_of_insert (fun n mem => ?_) before rfl rfl (Nat.le_refl 1)⟩
    exact List.mem_singleton.1 mem ▸ .head _

theorem Allocation.heeded (h : Allocation r p r') : ∃ new, Heeded (some p) r r' new := by
  cases h with
  | kept _ => exact ⟨[], heeded_of_eq rfl rfl⟩
  | @allocated a record mismatch _ unknown disabled =>
    have before : r.flags p = 0 := by
      unfold flags EvaluationStore.isDisabled
      rw [unknown]
      rfl
    refine ⟨_, heeded_of_insert (fun n mem => ?_) before rfl rfl ?_⟩
    · obtain ⟨reason, -, rfl⟩ := List.mem_map.1 mem
      exact .head _
    · rw [disabled]
      cases mismatch <;> simp

/-- Every call gives notices about its producer only, each with its flag. -/
theorem heeded_after (r : Recording) (c : StoreCall) :
    ∃ new, Heeded c.producer? r (c.after r) new := by
  have quiet {r' : Recording} (notices : r'.notices = r.notices)
      (producers : r'.store.producers = r.store.producers) :
      ∃ new, Heeded c.producer? r r' new := ⟨[], heeded_of_eq notices producers⟩
  have onArchive (act : Archive.Action Unit) :
      ∃ new, Heeded c.producer? r (stateAfter (onArchive act r)) new := by
    rw [stateAfter_onArchive]
    exact quiet rfl rfl
  cases c with
  | allocate p inputs response active =>
    exact ((ends_allocate_course r p inputs response active).mono (fun _ _ course => course.heeded)
      fun _ _ course => course.heeded).state
  | storeVariables p x =>
    have course : InputsCourse r p x _ := ends_result.1 (ends_storeVariables_course r p x)
    show ∃ new, Heeded (some p) r (stateAfter (storeVariables p x.id x.active x.values r)) new
    generalize storeVariables p x.id x.active x.values r = result at course
    cases course with
    | strayed known _ retired => exact retired.heeded known
    | _ => exact quiet rfl rfl
  | storeResponse p id response =>
    have course := course_storeResponse r ⟨p, id, response⟩
    show ∃ new, Heeded (some p) r (stateAfter ((Arrival.call ⟨p, id, response⟩).run r)) new
    generalize (Arrival.call ⟨p, id, response⟩).run r = result at course
    cases course with
    | passed _ => exact quiet rfl rfl
    | refused _ _ => exact quiet rfl rfl
    | dropped _ known retired =>
      obtain ⟨new, heeded⟩ := retired.heeded known
      exact ⟨new, heeded.notices, heeded.about, heeded.flags⟩
    | written _ _ =>
      rw [stateAfter_onArchive]
      exact quiet rfl rfl
  | abandon p id => exact quiet rfl rfl
  | declareSource owner source => exact onArchive _
  | storeParameters p parameters =>
    show ∃ new, Heeded (some p) r (stateAfter (storeParameters p parameters r)) new
    rw [storeParameters_eq]
    split
    · exact onArchive _
    · exact quiet rfl rfl
  | addMethodModel id | setTopModel id =>
    obtain ⟨ids, eq⟩ := r.store.exists_addMethodModel id
    have same : (r.store.addMethodModel id).producers = r.store.producers := by rw [eq]
    exact quiet rfl same
  | select models interfaces => exact quiet rfl rfl

theorem heeded_turn (r : Recording) (t : Turn) : ∃ new, Heeded t.producer? r (t.after r) new := by
  cases t with
  | call c => exact heeded_after r c
  | elsewhere a => exact ⟨[], heeded_of_eq rfl rfl⟩

/-- The notices of a run, each with the producer that the call that gave it was about. -/
def warnings (r : Recording) : List Turn → List (Option Producer × StoreNotice)
  | [] => []
  | t :: turns =>
    ((t.after r).notices.drop r.notices.length).map (t.producer?, ·) ++ warnings (t.after r) turns

/-- The number of notices about a producer. -/
def warned (r : Recording) (turns : List Turn) (p : Producer) : Nat :=
  (r.warnings turns).countP (·.1 = some p)

/-- What a run adds to the notices. -/
structure Warned (r : Recording) (turns : List Turn) : Prop where
  /-- Every notice is about the producer of the call that gave it. -/
  about : ∀ w ∈ r.warnings turns, ∃ p, w.1 = some p ∧ w.2.IsAbout p
  /-- There are no other notices. -/
  notices : (Turn.afterAll r turns).notices = r.notices ++ (r.warnings turns).map (·.2)
  flags : ∀ p, r.warned turns p + r.flags p ≤ (Turn.afterAll r turns).flags p

theorem warned_run (r : Recording) (turns : List Turn) : Warned r turns := by
  induction turns generalizing r with
  | nil =>
    refine ⟨fun _ mem => absurd mem List.not_mem_nil, (List.append_nil _).symm, fun p => ?_⟩
    exact (Nat.zero_add _).le
  | cons t turns ih =>
    obtain ⟨new, step⟩ := heeded_turn r t
    have rest := ih (t.after r)
    have first : r.warnings (t :: turns) =
        new.map (t.producer?, ·) ++ (t.after r).warnings turns := by
      rw [warnings, step.notices, List.drop_left]
    refine ⟨fun w mem => ?_, ?_, fun p => ?_⟩
    · rw [first] at mem
      rcases List.mem_append.1 mem with mem | mem
      · obtain ⟨n, given, rfl⟩ := List.mem_map.1 mem
        exact step.about n given
      · exact rest.about w mem
    · rw [first, List.map_append, List.map_map, ← List.append_assoc]
      refine rest.notices.trans ?_
      rw [step.notices]
      simp
    · have count : r.warned (t :: turns) p =
          (if t.producer? = some p then new.length else 0) + (t.after r).warned turns p := by
        unfold warned
        rw [first, List.countP_append, List.countP_map]
        congr 1
        split
        · next own => simp [Function.comp_def, own]
        · next other => simp [Function.comp_def, other]
      have here := step.flags p
      have there := rest.flags p
      show _ ≤ (Turn.afterAll (t.after r) turns).flags p
      omega

/-! ## Evaluations that are stored no more

A response does not ask for the flag, which is shown by running it with all the flags taken back. -/

/-- The recording with a producer's evaluations stored again. -/
def enabled (r : Recording) (p : Producer) : Recording :=
  match r.store.producers.get? p with
  | none => r
  | some record =>
    { r with store := { r.store with
        producers := r.store.producers.insert p { record with disabled := false } } }

/-- Two recordings that differ at most in what is known of producers, and in the notices. -/
structure Alike (r t : Recording) : Prop where
  archive : t.archive = r.archive
  slots : t.store.slots = r.store.slots

theorem together_onArchive {t : Recording} (h : Alike r t) (act : Archive.Action Unit) :
    Together Alike (onArchive act) (onArchive act) r t := by
  have there (a : Archive) : Alike (r.withArchive a) (t.withArchive a) := ⟨rfl, h.slots⟩
  cases ran : act r.archive with
  | ok v a =>
    exact .ok (onArchive_of_ok ran) (onArchive_of_ok (h.archive ▸ ran)) (there a)
  | error e a =>
    exact .error (onArchive_of_error ran) (onArchive_of_error (h.archive ▸ ran)) (there a)

theorem together_disable {t : Recording} (h : Alike r t) (record record' : ProducerRecord)
    (id : UInt64) (reason : String) :
    Together Alike (disable p record id reason) (disable p record' id reason) r t := by
  obtain ⟨_, r', ran, retired⟩ := (ends_retired r p record id reason).exists_ok
  obtain ⟨_, t', ran', retired'⟩ := (ends_retired t p record' id reason).exists_ok
  refine .ok ran ran' ?_
  cases retired <;> cases retired' <;> exact ⟨h.archive, h.slots⟩

theorem alike_enabled (r : Recording) (p : Producer) : Alike r (r.enabled p) := by
  unfold enabled
  split <;> exact ⟨rfl, rfl⟩

theorem selects_enabled (r : Recording) (p q : Producer) :
    (r.enabled p).store.selects q = r.store.selects q := by
  unfold enabled
  split
  · rfl
  · cases q <;> rfl

theorem get?_enabled (r : Recording) (p : Producer) :
    (r.enabled p).store.producers.get? p =
      (r.store.producers.get? p).map ({ · with disabled := false }) := by
  unfold enabled
  split
  · next unknown => rw [unknown, Option.map_none]
  · next record known => rw [known, Option.map_some, Table.get?_insert, if_pos rfl]

/-- Storing a response does not look at the flag of its producer. -/
theorem enabled_storeResponse (r : Recording) (p : Producer) (id : UInt64) (response : Response) :
    Together Alike (storeResponse p id response) (storeResponse p id response) r (r.enabled p) := by
  have alike := alike_enabled r p
  unfold storeResponse
  refine .get ?_
  simp only [selects_enabled, alike.slots, get?_enabled]
  refine .ite (fun _ => ?_) fun _ => together_pure alike
  cases r.store.slots.get? (p, id) with
  | none => exact together_pure alike
  | some row =>
    cases r.store.producers.get? p with
    | none => exact together_throw alike
    | some record =>
      show Together Alike (recordResponse p record id row response)
        (recordResponse p { record with disabled := false } id row response) r (r.enabled p)
      have freed : Together Alike (freeSlot p id) (freeSlot p id) r (r.enabled p) := by
        refine together_modify ⟨alike.archive, ?_⟩
        show (r.enabled p).store.slots.erase (p, id) = r.store.slots.erase (p, id)
        rw [alike.slots]
      unfold recordResponse
      cases record.schema.responseDrift? response with
      | some reason =>
        exact freed.bind fun _ _ _ alike => together_disable alike record _ id reason
      | none =>
        refine .check alike fun _ _ => .check alike fun _ _ => .check alike fun _ _ => ?_
        exact freed.bind fun _ _ _ alike => together_onArchive alike _

/-- A recording in which a producer's evaluations are stored no more. -/
structure StoredNoMore (r : Recording) (p : Producer) : Prop where
  disabled : r.store.isDisabled p = true
  /-- Inputs are passed over. -/
  inputs : ∀ x, (StoreCall.storeVariables p x).run r = .ok () r
  /-- A response does the same as if evaluations were still stored. -/
  responses : ∀ id response, (StoreCall.storeResponse p id response).run |> fun call =>
    outcome (call r) = outcome (call (r.enabled p)) ∧
    (stateAfter (call r)).archive = (stateAfter (call (r.enabled p))).archive ∧
    (stateAfter (call r)).store.slots = (stateAfter (call (r.enabled p))).store.slots
  /-- A response that fits and passes the checks is written into the row that waits for it. -/
  written : ∀ id response row record, r.store.selects p = true →
    r.store.slots.get? (p, id) = some row → r.store.producers.get? p = some record →
    record.schema.responseDrift? response = none → record.check ⟨p, id, response⟩ = .ok () →
    ((StoreCall.storeResponse p id response).after r).archive =
        stateAfter (writeResponse record.layout record.schema response row r.archive) ∧
      ((StoreCall.storeResponse p id response).after r).store.slots = r.store.slots.erase (p, id)

theorem storedNoMore (disabled : r.store.isDisabled p = true) : StoredNoMore r p where
  disabled := disabled
  inputs x := by
    show storeVariables p x.id x.active x.values r = .ok () r
    unfold storeVariables
    rw [get_bind]
    split
    · cases known : r.store.producers.get? p with
      | none =>
        rw [EvaluationStore.isDisabled, known] at disabled
        cases disabled
      | some record =>
        rw [EvaluationStore.isDisabled_of_get? known] at disabled
        simp only [disabled, if_true]
        rfl
    · rfl
  responses id response := by
    have same := enabled_storeResponse r p id response
    exact ⟨same.outcome_eq, same.state.archive.symm, same.state.slots.symm⟩
  written id response row record selected waits known fits passes := by
    have fate := Arrival.fate_of_passed ⟨p, id, response⟩ selected waits known fits passes
    have course := course_storeResponse r ⟨p, id, response⟩
    show (stateAfter ((Arrival.call ⟨p, id, response⟩).run r)).archive = _ ∧
      (stateAfter ((Arrival.call ⟨p, id, response⟩).run r)).store.slots = _
    generalize (Arrival.call ⟨p, id, response⟩).run r = result at course
    cases course with
    | passed other => cases fate.symm.trans other
    | refused _ other => cases fate.symm.trans other
    | dropped other => cases fate.symm.trans other
    | written same known' =>
      obtain rfl := Option.some.inj (known.symm.trans known')
      cases fate.symm.trans same
      rw [stateAfter_onArchive]
      exact ⟨rfl, rfl⟩

/-- Whatever calls are made, and whatever others do to the archive meanwhile: each notice is about
the producer of one of the calls, of each producer there is one notice at most, and none if its
evaluations are stored no more.  Then they never are again, and the responses to those that were
sent out before are taken as they would have been. -/
theorem drift_stops_storage (r : Recording) (turns : List Turn) :
    (∀ w ∈ r.warnings turns, ∃ p, w.1 = some p ∧ w.2.IsAbout p) ∧
    (Turn.afterAll r turns).notices = r.notices ++ (r.warnings turns).map (·.2) ∧
    ∀ p, r.warned turns p ≤ 1 ∧ (r.store.isDisabled p = true →
      r.warned turns p = 0 ∧ StoredNoMore (Turn.afterAll r turns) p) := by
  have run := warned_run r turns
  refine ⟨run.about, run.notices, fun p => ?_⟩
  have sum := run.flags p
  have most := (Turn.afterAll r turns).flags_le_one p
  refine ⟨by omega, fun disabled => ?_⟩
  have flagged : r.flags p = 1 := by
    unfold flags
    rw [disabled]
    rfl
  refine ⟨by omega, storedNoMore ?_⟩
  have still : (Turn.afterAll r turns).flags p = 1 := by omega
  unfold flags at still
  exact Bool.toNat_eq_one.1 still

/-- An evaluation with a function too many. -/
def excessive (id : UInt64) : Turn :=
  .call (.storeVariables (.model "s" "m") ⟨id, ⟨[1, 1], []⟩, {}⟩)

/-- A producer's second evaluation has a function too many.  There is a warning of it and no other
one, and the response to the first evaluation is still written into its row. -/
theorem drift_stops_storage_of_second_function : ∃ start r, start.Fresh ∧
    r = Turn.afterAll start
      ((StoreCall.sending (.model "s" "m") {} .oneFunction [7]).map .call ++ [excessive 8]) ∧
    r.notices.length = 1 ∧ r.store.isDisabled (.model "s" "m") = true ∧
    r.warned [excessive 9] (.model "s" "m") = 0 ∧
    ∃ record, r.store.producers.get? (.model "s" "m") = some record ∧
      r.store.slots.get? (.model "s" "m", 7) = some 0 ∧
      ((StoreCall.storeResponse (.model "s" "m") 7 (.blank .oneFunction [])).after r).archive =
        stateAfter (writeResponse record.layout record.schema (.blank .oneFunction []) 0
          r.archive) := by
  have ready : (started {}).any (fun start => (fun r =>
      decide (r.notices.length = 1) && r.store.isDisabled (.model "s" "m") &&
      r.store.selects (.model "s" "m") &&
      decide (r.store.slots.get? (.model "s" "m", 7) = some 0) &&
      (r.store.producers.get? (.model "s" "m")).any fun record =>
        decide (record.schema.responseDrift? (.blank .oneFunction []) = none) &&
        (record.check ⟨.model "s" "m", 7, .blank .oneFunction []⟩).toOption = some ())
      (Turn.afterAll start ((StoreCall.sending (.model "s" "m") {} .oneFunction [7]).map .call ++
        [excessive 8]))) := by
    decide +kernel
  obtain ⟨start, opened, ready⟩ := (Option.any_eq_true ..).1 ready
  simp only [Bool.and_eq_true, Option.any_eq_true, decide_eq_true_eq] at ready
  obtain ⟨⟨⟨⟨one, disabled⟩, selected⟩, waits⟩, record, known, fits, passes⟩ := ready
  obtain ⟨-, -, each⟩ := drift_stops_storage (Turn.afterAll start _) [excessive 9]
  obtain ⟨silent, -⟩ := (each (.model "s" "m")).2 disabled
  obtain ⟨-, -, now⟩ := drift_stops_storage (Turn.afterAll start _) []
  obtain ⟨-, stopped⟩ := (now (.model "s" "m")).2 disabled
  exact ⟨start, _, fresh_of_started rfl rfl opened, rfl, one, disabled, silent, record, known,
    waits, (stopped.written 7 _ 0 record selected waits known fits (eq_ok_of_toOption passes)).1⟩

end Recording
end StudyArchive
