import Mathlib.Logic.Function.Basic
import StudyArchive.Proofs.Evaluation.Journal
import StudyArchive.Proofs.Evaluation.Runs
/-
# The rows of an evaluation

Row `i` of every dataset of a producer is about the same evaluation, whatever calls led to the
recording (`Recording.stays_aligned`).  Which evaluation this is, is read off the run: a journal is
kept beside it that gets an entry whenever a call made the column of identifiers longer, and a
response whenever one was stored (`Journal.note`).  One call keeps a recording in agreement with its
journal (`Agrees.after`), and so do all calls of a run.
-/

namespace StudyArchive

open Dataset (Appended)

/-- The number of evaluations below a producer's group, by the column of their identifiers. -/
def Archive.evaluations (a : Archive) (root : Path) : Nat :=
  ((a.at? (EvaluationPart.ids.path root)).map Dataset.rows).getD 0

/-! ## Keeping a journal

The journal looks at the recordings before and after a call, and not at how the call went on. -/

/-- The entries of each producer's group. -/
abbrev Journal := Path → List JournalEntry

namespace Journal

/-- The schema by which inputs were stored, if they were: there is an evaluation more. -/
def storedBy? (r r' : Recording) (p : Producer) : Option EvaluationSchema :=
  if r.archive.evaluations p.root < r'.archive.evaluations p.root then r.store.schema? p else none

/-- The row in which a response was stored, if it was: it fits, and a row waited for it and does not
wait any more. -/
def storedAt? (r r' : Recording) (p : Producer) (id : UInt64) (response : Response) :
    Option Nat :=
  match r.store.slots.get? (p, id), r.store.schema? p with
  | some i, some s =>
    if s.responseDrift? response = none ∧ r'.store.slots.get? (p, id) = none then some i else none
  | _, _ => none

/-- The journal after a call that led from one recording to another. -/
def note (j : Journal) (r r' : Recording) : StoreCall → Journal
  | .storeVariables p x =>
    match storedBy? r r' p with
    | some s => Function.update j p.root (j p.root ++ [⟨p, s, x, none⟩])
    | none => j
  | .storeResponse p id response =>
    match storedAt? r r' p id response with
    | some i => Function.update j p.root ((j p.root).modify i (·.answer p id response))
    | none => j
  | _ => j

/-- The journal after calls one after the other. -/
def afterAll (r : Recording) (j : Journal) : List StoreCall → Journal
  | [] => j
  | c :: calls => afterAll (c.after r) (j.note r (c.after r) c) calls

/-- An entry stays where it is if the new entries of its group have it there. -/
theorem getElem?_update {j : Journal} {root root' : Path} {entries : List JournalEntry} {i : Nat}
    {e : JournalEntry} (at_ : (j root')[i]? = some e)
    (kept : root' = root → entries[i]? = some e) :
    (Function.update j root entries root')[i]? = some e := by
  by_cases own : root' = root
  · rw [own, Function.update_self]
    exact kept own
  · rw [Function.update_of_ne own, at_]

section
variable {j : Journal} {r r' : Recording} {p : Producer} {x : EvaluationInputs} {id : UInt64}
  {response : Response}

/-- Inputs that are refused are not noted. -/
theorem note_of_archive_eq (same : r'.archive = r.archive) :
    j.note r r' (.storeVariables p x) = j := by
  have none : storedBy? r r' p = none := by rw [storedBy?, same, if_neg (Nat.lt_irrefl _)]
  rw [note, none]

/-- Inputs that were appended were stored. -/
theorem storedBy?_of_appended {s : EvaluationSchema} {n : Nat}
    (known : r.store.schema? p = some s)
    (dims : ∀ part : EvaluationPart,
      (r.archive.at? (part.path p.root)).map Dataset.dims = (part.shape? s).map (n :: ·))
    (appended : Archive.Reworked p.root (fun part d d' => Appended d (part.inputRow s x) d')
      r.archive r'.archive) : storedBy? r r' p = some s := by
  obtain ⟨d, found, -⟩ := Option.map_eq_some_iff.1 (dims .ids)
  obtain ⟨d', found', grown⟩ := appended.parts .ids d found
  have before : r.archive.evaluations p.root = d.rows := by simp [Archive.evaluations, found]
  have after : r'.archive.evaluations p.root = d.rows + 1 := by
    simp [Archive.evaluations, found', grown.rows]
  rw [storedBy?, before, after, if_pos (Nat.lt_succ_self _), known]

theorem note_of_storedBy? {s : EvaluationSchema} (stored : storedBy? r r' p = some s) :
    j.note r r' (.storeVariables p x) =
      Function.update j p.root (j p.root ++ [⟨p, s, x, none⟩]) := by
  rw [note, stored]

/-- Responses that are passed over are not noted. -/
theorem note_self : j.note r r (.storeResponse p id response) = j := by
  have none : storedAt? r r p id response = none := by
    unfold storedAt?
    split
    · next waits _ => simp [waits]
    · rfl
  rw [note, none]

/-- Responses that are dropped are not noted. -/
theorem note_of_drift {s : EvaluationSchema} (known : r.store.schema? p = some s)
    (drift : s.responseDrift? response ≠ none) :
    j.note r r' (.storeResponse p id response) = j := by
  have none : storedAt? r r' p id response = none := by
    unfold storedAt?
    rw [known]
    split
    · next s' _ eq => rw [← Option.some.inj eq, if_neg fun both => drift both.1]
    · rfl
  rw [note, none]

theorem note_of_storedAt? {i : Nat} (stored : storedAt? r r' p id response = some i) :
    j.note r r' (.storeResponse p id response) =
      Function.update j p.root ((j p.root).modify i (·.answer p id response)) := by
  rw [note, stored]

end

end Journal

/-! ## Calls within the limit of records

A record without a frame may stop a call half-way, and then nothing is said of it. -/

namespace StoreCall

/-- Whether a call fails for a record without a frame. -/
def overflows (c : StoreCall) (r : Recording) : Bool :=
  match c.run r with
  | .ok .. => false
  | .error e _ => e.isUnencodable

/-- Whether one of several calls fails for a record without a frame. -/
def overflowsIn (r : Recording) : List StoreCall → Bool
  | [] => false
  | c :: calls => c.overflows r || overflowsIn (c.after r) calls

/-- A call that succeeds does not fail for anything. -/
theorem overflows_of_ran {c : StoreCall} {r r' : Recording} (ran : c.run r = .ok () r') :
    c.overflows r = false := by
  rw [overflows, ran]

theorem after_of_ran {c : StoreCall} {r r' : Recording} (ran : c.run r = .ok () r') :
    c.after r = r' := by
  rw [after, ran]
  rfl

/-- A call that does not fail for a record without a frame does what it should or nothing. -/
theorem after_of_ends {c : StoreCall} {r : Recording} {good cut : Recording → Prop}
    (h : Ends c.run r (fun _ => good) (fun e r' => r' = r ∨ e.isUnencodable ∧ cut r'))
    (within : c.overflows r = false) : good (c.after r) ∨ c.after r = r := by
  unfold overflows at within
  unfold after stateAfter
  split at within
  · next ran =>
    rw [ran]
    exact .inl (h.good_of_eq ran)
  · next ran =>
    rw [ran]
    refine .inr ((h.bad_of_eq ran).resolve_right fun failed => ?_)
    cases within.symm.trans failed.1

end StoreCall

namespace Recording

variable {r r' : Recording} {p : Producer} {j : Journal}

/-! ## Agreement -/

/-- A recording whose datasets hold what a journal says, and whose waiting rows are those of entries
without a response. -/
structure Agrees (r : Recording) (j : Journal) : Prop where
  archive : ∀ root, IsProducerRoot root → r.archive.Agrees root (j root)
  waits : ∀ p id i, r.store.slots.get? (p, id) = some i → ∃ e, (j p.root)[i]? = some e ∧
    e.producer = p ∧ e.inputs.id = id ∧ e.response = none ∧ r.store.schema? p = some e.schema

theorem Fresh.agrees (fresh : r.Fresh) : r.Agrees fun _ => [] where
  archive root _ := by
    refine ⟨by simp, fun part d found => ?_, by simp, by simp⟩
    cases (fresh.absent root part).symm.trans found
  waits p id i waits := by
    rw [fresh.slots] at waits
    cases waits

theorem Quiet.schema? (h : Quiet r r') {s : EvaluationSchema}
    (known : r.store.schema? p = some s) : r'.store.schema? p = some s := by
  obtain ⟨record, here, rfl⟩ := Option.map_eq_some_iff.1 known
  obtain ⟨record', known', same⟩ := h.kept p record here
  rw [EvaluationStore.schema?_of_get? known', same]

theorem Agrees.quiet (h : r.Agrees j) (quiet : Quiet r r') : r'.Agrees j where
  archive root hr := by
    obtain ⟨owner, built, absent⟩ := quiet.built
    exact (h.archive root hr).built hr built absent
  waits p id i waits := by
    rw [quiet.slots] at waits
    obtain ⟨e, at_, own, same, none, known⟩ := h.waits p id i waits
    exact ⟨e, at_, own, same, none, quiet.schema? known⟩

theorem Agrees.freed (h : r.Agrees j) (p : Producer) (id : UInt64) : (r.freed p id).Agrees j where
  archive := h.archive
  waits q id' i waits := by
    rw [get?_slots_freed] at waits
    split at waits
    · cases waits
    · exact h.waits q id' i waits

/-- Where the parts below one group changed, the entries of that group may be others. -/
theorem Agrees.update (h : r.Agrees j) {root : Path} (hr : IsProducerRoot root)
    {change : Archive.PartChange} (reworked : Archive.Reworked root change r.archive r'.archive)
    {entries : List JournalEntry} (here : r'.archive.Agrees root entries) (root' : Path)
    (hr' : IsProducerRoot root') :
    r'.archive.Agrees root' (Function.update j root entries root') := by
  by_cases own : root' = root
  · subst own
    rw [Function.update_self]
    exact here
  · rw [Function.update_of_ne own]
    exact (h.archive root' hr').of_at fun part => reworked.rest _ fun part' same =>
      own (EvaluationPart.path_injective hr' hr same).2

/-- Inputs that are stored are noted. -/
theorem Agrees.inputsEnd {x : EvaluationInputs} (sound : r.Sound) (h : r.Agrees j)
    (ended : InputsEnd r p x r') : r'.Agrees (j.note r r' (.storeVariables p x)) := by
  cases ended with
  | refused quiet same =>
    rw [Journal.note_of_archive_eq same]
    exact h.quiet quiet
  | @stored record n known _ dims appended _ slots producers =>
    have hr := Producer.segments_root (sound.known p record known).1.proper
    have schema (q : Producer) : r'.store.schema? q = r.store.schema? q := by
      rw [EvaluationStore.schema?, producers, EvaluationStore.schema?]
    have known := EvaluationStore.schema?_of_get? known
    obtain ⟨d, found, eq⟩ := Option.map_eq_some_iff.1 (dims .ids)
    have length : n = (j p.root).length := by
      rw [← (h.archive p.root hr).extents .ids d found, Dataset.rows, eq]
      rfl
    rw [Journal.note_of_storedBy? (Journal.storedBy?_of_appended known dims appended)]
    have more := (h.archive p.root hr).appended sound.laidOut dims appended
    refine ⟨h.update hr appended more, fun q id i waits => ?_⟩
    rw [slots] at waits
    rcases Table.eq_or_get?_of_insert waits with ⟨same, rfl⟩ | old
    · cases same
      refine ⟨⟨p, record.schema, x, none⟩, ?_, rfl, rfl, rfl, (schema p).trans known⟩
      rw [Function.update_self, length]
      exact List.getElem?_concat_length
    · obtain ⟨e, at_, rest⟩ := h.waits q id i old
      refine ⟨e, Journal.getElem?_update at_ fun own => ?_, schema q ▸ rest⟩
      rw [own] at at_
      rw [List.getElem?_append_left (List.getElem?_eq_some_iff.1 at_).1, at_]

/-- A response that is stored is noted. -/
theorem Agrees.responseEnd {id : UInt64} {response : Response} (sound : r.Sound)
    (h : r.Agrees j) (ended : ResponseEnd r p id response r') :
    r'.Agrees (j.note r r' (.storeResponse p id response)) := by
  cases ended with
  | passed _ same =>
    rw [same, Journal.note_self]
    exact h
  | dropped _ known drift quiet _ =>
    rw [Journal.note_of_drift (EvaluationStore.schema?_of_get? known) drift]
    exact (h.freed p id).quiet quiet
  | @stored record i waits known agrees answered _ store =>
    have hr := Producer.segments_root (sound.known p record known).1.proper
    have known := EvaluationStore.schema?_of_get? known
    obtain ⟨e, at_, rfl, rfl, -, known'⟩ := h.waits p id i waits
    have schema : e.schema = record.schema := Option.some.inj (known'.symm.trans known)
    have taken : Journal.storedAt? r r' e.producer e.inputs.id response = some i := by
      unfold Journal.storedAt?
      rw [waits, known, store, get?_slots_freed, if_pos rfl]
      exact if_pos ⟨agrees, rfl⟩
    rw [Journal.note_of_storedAt? taken]
    have more := (h.archive _ hr).answered sound.laidOut at_ (schema ▸ answered)
    refine ⟨h.update hr answered more, fun q id' k waits' => ?_⟩
    rw [store, get?_slots_freed] at waits'
    split at waits'
    · cases waits'
    · next other =>
      obtain ⟨e', at', rest⟩ := h.waits q id' k waits'
      refine ⟨e', Journal.getElem?_update at' fun own => ?_, store ▸ rest⟩
      have apart : i ≠ k := by
        rintro rfl
        obtain ⟨rfl, rfl⟩ := sound.unshared _ _ q id' i waits waits' own.symm
        exact other rfl
      rw [← own, List.getElem?_modify_ne _ _ apart, at']

/-- One call keeps a recording in agreement with its journal. -/
theorem Agrees.after (sound : r.Sound) (h : r.Agrees j) (c : StoreCall) (proper : c.IsProper)
    (within : c.overflows r = false) : (c.after r).Agrees (j.note r (c.after r) c) := by
  have quiet {c : StoreCall} (ended : EndsQuietly c.run r) : (c.after r).Agrees j :=
    h.quiet ended.quiet.state
  cases c with
  | allocate p inputs response active => exact quiet (ends_allocate sound proper ..)
  | storeVariables p x =>
    rcases StoreCall.after_of_ends (c := .storeVariables p x) (ends_storeVariables sound x)
      within with ended | same
    · exact h.inputsEnd sound ended
    · rw [same, Journal.note_of_archive_eq rfl]
      exact h
  | storeResponse p id response =>
    rcases StoreCall.after_of_ends (c := .storeResponse p id response)
      (ends_storeResponse sound id response) within with ended | same
    · exact h.responseEnd sound ended
    · rw [same, Journal.note_self]
      exact h
  | abandon p id => exact h.freed p id
  | declareSource owner source => exact quiet (ends_declareSource sound proper source)
  | storeParameters p parameters => exact quiet (ends_storeParameters sound proper parameters)
  | addMethodModel id => exact h.quiet (sound.quiet_addMethodModel id)
  | setTopModel id => exact h.quiet (sound.quiet_setTopModel id)
  | select models interfaces => exact h.quiet (sound.quiet_store rfl rfl)

/-- All calls of a run keep a recording in agreement with its journal. -/
theorem Agrees.afterAll {calls : List StoreCall} (sound : r.Sound) (h : r.Agrees j)
    (proper : ∀ c ∈ calls, c.IsProper) (within : StoreCall.overflowsIn r calls = false) :
    (StoreCall.afterAll r calls).Agrees (Journal.afterAll r j calls) := by
  induction calls generalizing r j with
  | nil => exact h
  | cons c calls ih =>
    obtain ⟨first, rest⟩ := Bool.or_eq_false_iff.1 within
    have here := proper c (List.mem_cons_self ..)
    exact ih (sound.after c here) (h.after sound c here first)
      (fun c' mem => proper c' (List.mem_cons_of_mem c mem)) rest

/-! ## Alignment -/

/-- No dataset changed, or all the datasets of a producer got the row of these inputs and no other
dataset changed. -/
def WholeRow (r : Recording) (p : Producer) (x : EvaluationInputs) (r' : Recording) : Prop :=
  (∀ q, r'.archive.at? q = r.archive.at? q) ∨
  ∃ s, r.store.schema? p = some s ∧
    Archive.Reworked p.root (fun part d d' => Appended d (part.inputRow s x) d')
      r.archive r'.archive

/-- A recording in which rows at the same place are about the same evaluation, the one at that place
in the journal. -/
structure Aligned (r : Recording) (j : Journal) : Prop where
  /-- Every dataset of a known producer has as many rows as its column of identifiers, and there is
  an entry for each. -/
  extents : ∀ p record, r.store.producers.get? p = some record →
    ∃ ids, r.archive.at? (EvaluationPart.ids.path p.root) = some ids ∧
      ids.rows = (j p.root).length ∧
      ∀ (part : EvaluationPart) d, r.archive.at? (part.path p.root) = some d → d.rows = ids.rows
  /-- Each row holds the inputs of its entry, and the fill or the response to that evaluation. -/
  rows : ∀ p record, r.store.producers.get? p = some record →
    ∀ i (e : JournalEntry), (j p.root)[i]? = some e → e.producer.root = p.root ∧
      ∀ (part : EvaluationPart) d, r.archive.at? (part.path p.root) = some d → e.InRow part i d
  /-- A row that waits is there, without a response, and bears the identifier of the evaluation. -/
  waits : ∀ p id i, r.store.slots.get? (p, id) = some i →
    ∃ ids e, r.archive.at? (EvaluationPart.ids.path p.root) = some ids ∧ i < ids.rows ∧
      ids.row i = [ElementType.uint64.toDatum id] ∧ (j p.root)[i]? = some e ∧ e.response = none
  /-- No row waits for two responses. -/
  unshared : ∀ p id p' id' i, r.store.slots.get? (p, id) = some i →
    r.store.slots.get? (p', id') = some i → p.root = p'.root → p = p' ∧ id = id'
  /-- Inputs that come next give every dataset of their producer a row, or change no dataset. -/
  whole : ∀ p x, (StoreCall.storeVariables p x).overflows r = false →
    r.WholeRow p x ((StoreCall.storeVariables p x).after r)

theorem Sound.whole (sound : r.Sound) (x : EvaluationInputs)
    (within : (StoreCall.storeVariables p x).overflows r = false) :
    r.WholeRow p x ((StoreCall.storeVariables p x).after r) := by
  rcases StoreCall.after_of_ends (c := .storeVariables p x) (ends_storeVariables sound x)
    within with ended | same
  · cases ended with
    | refused _ same => exact .inl fun q => by rw [same]
    | stored known _ _ appended _ _ _ =>
      exact .inr ⟨_, EvaluationStore.schema?_of_get? known, appended⟩
  · exact .inl fun q => by rw [same]

theorem Agrees.aligned (sound : r.Sound) (h : r.Agrees j) : r.Aligned j where
  extents p record known := by
    obtain ⟨fits, ids, found⟩ := sound.known p record known
    have agrees := h.archive p.root (Producer.segments_root fits.proper)
    have rows := agrees.extents .ids ids found
    exact ⟨ids, found, rows, fun part d there => (agrees.extents part d there).trans rows.symm⟩
  rows p record known i e at_ := by
    have agrees := h.archive p.root
      (Producer.segments_root (sound.known p record known).1.proper)
    exact ⟨agrees.owners e (List.mem_of_getElem? at_), agrees.rows i e at_⟩
  waits p id i waits := by
    obtain ⟨e, at_, -, same, none, known⟩ := h.waits p id i waits
    obtain ⟨record, known, -⟩ := Option.map_eq_some_iff.1 known
    obtain ⟨fits, ids, found⟩ := sound.known p record known
    have agrees := h.archive p.root (Producer.segments_root fits.proper)
    have low : i < ids.rows := by
      rw [agrees.extents .ids ids found]
      exact (List.getElem?_eq_some_iff.1 at_).1
    refine ⟨ids, e, found, low, ?_, at_, none⟩
    rw [(agrees.rows i e at_ .ids ids found).inputs (by decide), ← same]
    rfl
  unshared := sound.unshared
  whole _ x := sound.whole x

/-- In every recording that calls lead to, rows at the same place are about the same evaluation. -/
theorem stays_aligned {start : Recording} (fresh : start.Fresh) {calls : List StoreCall}
    (proper : ∀ c ∈ calls, c.IsProper) (within : StoreCall.overflowsIn start calls = false) :
    (StoreCall.afterAll start calls).Aligned (Journal.afterAll start (fun _ => []) calls) :=
  (fresh.agrees.afterAll fresh.sound proper within).aligned (fresh.sound_afterAll proper)

theorem stays_aligned_of_late_response : ∃ start calls, start.Fresh ∧
    (∀ c ∈ calls, StoreCall.IsProper c) ∧ StoreCall.overflowsIn start calls = false ∧
    (Journal.afterAll start (fun _ => []) calls (Producer.model "s" "m").root).map
      (fun e => (e.inputs.id, e.response.isSome)) = [(7, false), (8, true)] ∧
    (StoreCall.afterAll start calls).Aligned (Journal.afterAll start (fun _ => []) calls) := by
  have ready : (started {}).any (fun r =>
      (fun calls => !StoreCall.overflowsIn r calls &&
        decide ((Journal.afterAll r (fun _ => []) calls (Producer.model "s" "m").root).map
          (fun e => (e.inputs.id, e.response.isSome)) = [(7, false), (8, true)]))
      (StoreCall.sending (.model "s" "m") {} .oneFunction [7, 8] ++
        [.storeResponse (.model "s" "m") 8 (.blank .oneFunction [])])) := by decide +kernel
  obtain ⟨r, opened, ready⟩ := (Option.any_eq_true ..).1 ready
  have fresh := fresh_of_started rfl rfl opened
  obtain ⟨within, noted⟩ := Bool.and_eq_true_iff.1 ready
  have within := Bool.not_eq_true' _ ▸ within
  exact ⟨r, _, fresh, by decide, within, of_decide_eq_true noted,
    stays_aligned fresh (by decide) within⟩

end Recording
end StudyArchive
