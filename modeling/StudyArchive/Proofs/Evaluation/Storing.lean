import StudyArchive.Proofs.Evaluation.Runs
/-
# What storing a response leaves behind

In every recording that calls lead to, a response that is stored fills the row that waited for it,
entry by entry, and changes no other row and no other dataset (`Recording.stores_response`).  A
response of a producer that is not stored, or no longer, is passed over, and its row goes on
waiting.
-/

namespace StudyArchive.Recording

open Dataset (Touched)

/-- A response was stored in the row that waited for it. -/
structure Stored (r : Recording) (p : Producer) (id : UInt64) (s : EvaluationSchema) (i : Nat)
    (response : Response) (r' : Recording) : Prop where
  /-- Each dataset that responses go into holds the response in the row, and its other rows are as
  they were. -/
  parts : ∀ part ∈ EvaluationPart.answered, ∀ shape, part.shape? s = some shape →
    ∃ d d', r.archive.at? (part.path p.root) = some d ∧
      r'.archive.at? (part.path p.root) = some d' ∧ d.dims = d.rows :: shape ∧ i < d.rows ∧
      Touched d i d' ∧ part.Answers s response fun index => d'.cell (i :: index)
  /-- Every other dataset is as it was. -/
  rest : ∀ q, (∀ part ∈ EvaluationPart.answered, part.shape? s ≠ none → q ≠ part.path p.root) →
    r'.archive.at? q = r.archive.at? q
  /-- The row does not wait any more. -/
  slot : r'.store.slots.get? (p, id) = none
  /-- The other rows wait as they did. -/
  slots : ∀ q id', (q, id') ≠ (p, id) →
    r'.store.slots.get? (q, id') = r.store.slots.get? (q, id')

/-- What storing into the parts of the schema leaves, for each path. -/
theorem Sound.stored {r r' : Recording} {p : Producer} {id : UInt64} {i : Nat}
    {response : Response} {record : ProducerRecord} (sound : r.Sound)
    (waits : r.store.slots.get? (p, id) = some i)
    (known : r.store.producers.get? p = some record)
    (answered : Archive.Reworked p.root (EvaluationPart.AnsweredIf record.schema response i)
      r.archive r'.archive)
    (store : r'.store = (r.freed p id).store) :
    Stored r p id record.schema i response r' := by
  obtain ⟨record', known', awaits⟩ := sound.waits p id i waits
  obtain rfl := Option.some.inj (known.symm.trans known')
  refine ⟨fun part mem shape has => ?_, fun q other => ?_, ?_, fun q id' other => ?_⟩
  · obtain ⟨d, found, table, low, -⟩ := awaits.tables part shape has
    obtain ⟨d', found', changed⟩ := answered.parts part d found
    rw [EvaluationPart.AnsweredIf, if_pos ⟨mem, by simp [has]⟩] at changed
    exact ⟨d, d', found, found', table.dims, low, changed.touched, changed.answers⟩
  · by_cases own : ∃ part : EvaluationPart, q = part.path p.root
    · obtain ⟨part, rfl⟩ := own
      have untouched : ¬(part ∈ EvaluationPart.answered ∧
          (part.shape? record.schema).isSome) := by
        rintro ⟨mem, has⟩
        exact other part mem (Option.isSome_iff_ne_none.1 has) rfl
      cases found : r.archive.at? (part.path p.root) with
      | none => exact answered.none sound.laidOut found
      | some d =>
        obtain ⟨d', found', changed⟩ := answered.parts part d found
        rw [EvaluationPart.AnsweredIf, if_neg untouched] at changed
        rw [found', changed]
    · exact answered.rest q fun part same => own ⟨part, same⟩
  · rw [store, get?_slots_freed, if_pos rfl]
  · rw [store, get?_slots_freed, if_neg (Ne.symm other)]

/-- In every recording that calls lead to: when a response of a producer that is stored comes for a
row that waits, and it is taken without drift, it is stored in the row. -/
theorem stores_response {start : Recording} (fresh : start.Fresh) {calls : List StoreCall}
    (proper : ∀ c ∈ calls, c.IsProper) {p : Producer} {id : UInt64} {i : Nat}
    {response : Response} {r' : Recording}
    (selected : (StoreCall.afterAll start calls).store.selects p = true)
    (waits : (StoreCall.afterAll start calls).store.slots.get? (p, id) = some i)
    (returns : storeResponse p id response (StoreCall.afterAll start calls) = .ok () r') :
    ∃ s, (StoreCall.afterAll start calls).store.schema? p = some s ∧
      (s.responseDrift? response = none →
        Stored (StoreCall.afterAll start calls) p id s i response r') := by
  have sound := fresh.sound_afterAll proper
  generalize StoreCall.afterAll start calls = r at *
  obtain ⟨record, known, -⟩ := sound.waits p id i waits
  refine ⟨record.schema, EvaluationStore.schema?_of_get? known, fun agrees => ?_⟩
  cases (ends_storeResponse sound id response).good_of_eq returns with
  | passed none _ => cases (none selected).symm.trans waits
  | dropped _ known' drift _ _ =>
    obtain rfl := Option.some.inj (known.symm.trans known')
    exact absurd agrees drift
  | stored waits' known' _ answered _ store =>
    obtain rfl := Option.some.inj (known.symm.trans known')
    obtain rfl := Option.some.inj (waits.symm.trans waits')
    exact sound.stored waits known answered store

theorem stores_response_of_value : ∃ start r' s, start.Fresh ∧
    storeResponse (.model "s" "m") 7 (.blank .oneFunction []) (StoreCall.afterAll start
      (StoreCall.sending (.model "s" "m") {} .oneFunction [7])) = .ok () r' ∧
    s.responseDrift? (.blank .oneFunction []) = none ∧
    Stored (StoreCall.afterAll start (StoreCall.sending (.model "s" "m") {} .oneFunction [7]))
      (.model "s" "m") 7 s 0 (.blank .oneFunction []) r' := by
  have ready : (started {}).any (fun r =>
      (fun r => r.store.selects (.model "s" "m") &&
        r.store.slots.get? (.model "s" "m", 7) = some 0 &&
        ((r.store.schema? (.model "s" "m")).bind fun s =>
          s.responseDrift? (.blank .oneFunction [])) = none &&
        (okState? (storeResponse (.model "s" "m") 7 (.blank .oneFunction []) r)).isSome)
      (StoreCall.afterAll r (StoreCall.sending (.model "s" "m") {} .oneFunction [7]))) := by
    decide +kernel
  obtain ⟨start, opened, ready⟩ := (Option.any_eq_true ..).1 ready
  have fresh := fresh_of_started rfl rfl opened
  simp only [Bool.and_eq_true, decide_eq_true_eq] at ready
  obtain ⟨⟨⟨selected, waits⟩, agrees⟩, returns⟩ := ready
  obtain ⟨r', returns⟩ := Option.isSome_iff_exists.1 returns
  obtain ⟨_, ran⟩ := exists_ok_of_okState? returns
  obtain ⟨s, schema, stored⟩ := stores_response fresh (by decide) selected waits ran
  rw [schema] at agrees
  exact ⟨start, r', s, fresh, ran, agrees, stored agrees⟩

/-- A model is the top one, an evaluation of it is sent out, and another model takes its place. -/
def replaced : List StoreCall :=
  .setTopModel "m" :: StoreCall.sending (.model "s" "m") {} .oneFunction [7] ++ [.setTopModel "n"]

/-- A response of a producer that is no longer stored is passed over: the call succeeds, the row
goes on waiting, and the value that was asked for is still missing. -/
theorem passes_response_over : ∃ start r' s d, start.Fresh ∧
    storeResponse (.model "s" "m") 7 (.blank .oneFunction []) (StoreCall.afterAll start replaced) =
      .ok () r' ∧
    r'.store.schema? (.model "s" "m") = some s ∧
    s.responseDrift? (.blank .oneFunction []) = none ∧
    r'.store.slots.get? (.model "s" "m", 7) = some 0 ∧
    r'.archive.at? (EvaluationPart.functions.path (Producer.model "s" "m").root) = some d ∧
    d.cell [0, 0] = .real .nan ∧
    (Response.blank .oneFunction []).values = [.zero] := by
  have ready : (started { models := .topMethod }).any (fun start =>
      (okState? (storeResponse (.model "s" "m") 7 (.blank .oneFunction [])
        (StoreCall.afterAll start replaced))).any fun r' =>
        (r'.store.schema? (.model "s" "m")).any (fun s =>
          s.responseDrift? (.blank .oneFunction []) = none) &&
        r'.store.slots.get? (.model "s" "m", 7) = some 0 &&
        (r'.archive.at? (EvaluationPart.functions.path (Producer.model "s" "m").root)).any
          fun d => d.cell [0, 0] = .real .nan) := by decide +kernel
  obtain ⟨start, opened, ready⟩ := (Option.any_eq_true ..).1 ready
  obtain ⟨r', returns, ready⟩ := (Option.any_eq_true ..).1 ready
  obtain ⟨_, ran⟩ := exists_ok_of_okState? returns
  simp only [Bool.and_eq_true, decide_eq_true_eq, Option.any_eq_true] at ready
  obtain ⟨⟨⟨s, known, agrees⟩, waits⟩, d, found, missing⟩ := ready
  exact ⟨start, r', s, d, fresh_of_started rfl rfl opened, ran, known, agrees, waits, found,
    missing, rfl⟩

end StudyArchive.Recording
