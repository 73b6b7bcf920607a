import StudyArchive.Proofs.Evaluation.Answers
import StudyArchive.Proofs.Evaluation.Creation
import StudyArchive.Proofs.Evaluation.Fresh
import StudyArchive.Proofs.Evaluation.Inputs
import StudyArchive.Proofs.Evaluation.Rules
/-
# Calls that leave evaluations alone

Most calls of the store of evaluations leave the data of all evaluations as they are
(`Recording.Quiet`): they make datasets without rows, put something down about a producer, or are
refused.  They do so after each record that is taken on the way (`Recording.Led`).
-/

namespace StudyArchive

open EvaluationLayout

/-- Whether an error is about a record without a frame. -/
def StudyError.isUnencodable : StudyError → Bool
  | storage e => e.isUnencodable
  | _ => false

/-- What an archive may be on the way of a call that makes something: the datasets of a producer are
new only if it had no column of identifiers and has one now. -/
inductive Archive.Furthered (a b : Archive) : Prop
  | shared (built : Built none a b)
  | founded {root : Path} (absent : a.at? (EvaluationPart.ids.path root) = none)
      (built : Built (some root) a b) (there : ∃ d, b.at? (EvaluationPart.ids.path root) = some d)

/-- What is known of a producer fits the producer. -/
structure ProducerRecord.Fits (record : ProducerRecord) (p : Producer) : Prop where
  proper : p.IsProper
  layout : record.layout = .ofSchema p record.schema
  four : record.schema.variableCounts.length = 4
  ascending : strictlyAscending record.schema.derivatives = true

theorem EvaluationSchema.fits_of_capture {p : Producer} {inputs : Variables} {response : Response}
    {active : ActiveSet} {s : EvaluationSchema} (h : capture p inputs response active = .ok s) :
    s.variableCounts.length = 4 ∧ strictlyAscending s.derivatives = true := by
  obtain ⟨_, ascending, h⟩ := exists_of_bind_eq_ok h
  cases h
  exact ⟨rfl, Producer.ascending_of_check ascending⟩

theorem EvaluationStore.schema?_of_get? {s : EvaluationStore} {p : Producer}
    {record : ProducerRecord} (known : s.producers.get? p = some record) :
    s.schema? p = some record.schema := by
  rw [schema?, known, Option.map_some]

theorem EvaluationStore.isDisabled_of_get? {s : EvaluationStore} {p : Producer}
    {record : ProducerRecord} (known : s.producers.get? p = some record) :
    s.isDisabled p = record.disabled := by
  rw [isDisabled, known]

theorem EvaluationStore.exists_addMethodModel (s : EvaluationStore) (id : String) :
    ∃ ids, s.addMethodModel id = { s with methodModels := ids } := by
  rw [addMethodModel]
  split
  · exact ⟨s.methodModels, rfl⟩
  · exact ⟨_, rfl⟩

namespace Recording

variable {r r' : Recording} {p : Producer} {α : Type}

/-! ## What calls keep

`Sound` is the invariant of the store and its archive, and `Quiet` what a call keeps that stores
no evaluation. -/

/-- An archive laid out for evaluations; what is known of each producer fits it, and it has a column
of identifiers; and of the rows that wait for a response, each waits for one response only. -/
structure Sound (r : Recording) : Prop where
  laidOut : r.archive.LaidOut
  known : ∀ p record, r.store.producers.get? p = some record →
    record.Fits p ∧ ∃ d, r.archive.at? (EvaluationPart.ids.path p.root) = some d
  waits : ∀ p id i, r.store.slots.get? (p, id) = some i →
    ∃ record, r.store.producers.get? p = some record ∧ r.archive.Awaits p.root record.schema i
  unshared : ∀ p id p' id' i, r.store.slots.get? (p, id) = some i →
    r.store.slots.get? (p', id') = some i → p.root = p'.root → p = p' ∧ id = id'

/-- Two recordings with the same evaluations: something may have been made, and more may be known
of producers. -/
structure Quiet (r r' : Recording) : Prop where
  built : ∃ owner, Archive.Built owner r.archive r'.archive ∧
    ∀ root, owner = some root → r.archive.at? (EvaluationPart.ids.path root) = none
  slots : r'.store.slots = r.store.slots
  kept : ∀ p record, r.store.producers.get? p = some record →
    ∃ record', r'.store.producers.get? p = some record' ∧ record'.schema = record.schema
  known : ∀ p record', r'.store.producers.get? p = some record' →
    record'.Fits p ∧ ∃ d, r'.archive.at? (EvaluationPart.ids.path p.root) = some d

/-- Something may have been made, record by record. -/
def Led (r r' : Recording) : Prop :=
  Archive.Passes (Archive.Furthered r.archive) r.archive r'.archive

theorem led_of_archive_eq (same : r'.archive = r.archive) : Led r r' := by
  rw [Led, same]
  exact .refl

/-- A step that leaves the data of evaluations as they are, whichever way it ends; only a record
without a frame keeps the log behind. -/
def EndsQuietly (act : Action α) (r : Recording) : Prop :=
  Ends act r (fun _ r' => Quiet r r' ∧ Led r r')
    (fun e r' => Quiet r r' ∧ (e.isUnencodable ∨ Led r r'))

theorem EndsQuietly.quiet {act : Action α} (h : EndsQuietly act r) :
    Ends act r (fun _ => Quiet r) (fun _ => Quiet r) :=
  h.mono (fun _ _ => And.left) fun _ _ => And.left

theorem Sound.quiet_self (sound : r.Sound) : Quiet r r :=
  ⟨⟨none, sound.laidOut.built_self, fun _ h => by cases h⟩, rfl,
    fun _ record known => ⟨record, known, rfl⟩, sound.known⟩

/-- What is selected, and what is known of methods and their models, is not about evaluations. -/
theorem Sound.quiet_store (sound : r.Sound) {s : EvaluationStore}
    (producers : s.producers = r.store.producers) (slots : s.slots = r.store.slots) :
    Quiet r { r with store := s } where
  built := sound.quiet_self.built
  slots := slots
  kept _ record known := ⟨record, producers ▸ known, rfl⟩
  known p record known := sound.known p record (producers ▸ known)

theorem Sound.quiet_addMethodModel (sound : r.Sound) (id : String) :
    Quiet r { r with store := r.store.addMethodModel id } := by
  obtain ⟨ids, eq⟩ := r.store.exists_addMethodModel id
  rw [eq]
  exact sound.quiet_store rfl rfl

theorem Sound.quiet_setTopModel (sound : r.Sound) (id : String) :
    Quiet r { r with store := r.store.setTopModel id } := by
  obtain ⟨ids, eq⟩ := r.store.exists_addMethodModel id
  rw [EvaluationStore.setTopModel, eq]
  exact sound.quiet_store rfl rfl

/-- A step that makes something, and datasets of a producer only if it had none. -/
theorem Sound.quiet_of_built (sound : r.Sound) {owner : Option Path} {a : Archive}
    (built : Archive.Built owner r.archive a)
    (absent : ∀ root, owner = some root →
      r.archive.at? (EvaluationPart.ids.path root) = none) : Quiet r { r with archive := a } where
  built := ⟨owner, built, absent⟩
  slots := rfl
  kept _ record known := ⟨record, known, rfl⟩
  known p record known := by
    obtain ⟨fits, d, found⟩ := sound.known p record known
    obtain ⟨d', found', -⟩ := built.kept (Producer.segments_root fits.proper) found
    exact ⟨fits, d', found'⟩

/-- A step that puts down something about a producer whose column of identifiers is there. -/
theorem Quiet.setProducer (h : Quiet r r') {record : ProducerRecord} (fits : record.Fits p)
    (same : ∀ old, r.store.producers.get? p = some old → record.schema = old.schema)
    {d : Dataset} (found : r'.archive.at? (EvaluationPart.ids.path p.root) = some d) :
    Quiet r { r' with store := { r'.store with
      producers := r'.store.producers.insert p record } } where
  built := h.built
  slots := h.slots
  kept q old known := by
    show ∃ record', (r'.store.producers.insert p record).get? q = some record' ∧ _
    rw [Table.get?_insert]
    split
    · next eq =>
      subst eq
      exact ⟨record, rfl, same old known⟩
    · exact h.kept q old known
  known q record' known := by
    have known : (r'.store.producers.insert p record).get? q = some record' := known
    rcases Table.eq_or_get?_of_insert known with ⟨rfl, rfl⟩ | old
    · exact ⟨fits, d, found⟩
    · exact h.known q record' old

theorem ends_disable (h : Quiet r r') {record : ProducerRecord}
    (known : r'.store.producers.get? p = some record)
    (same : ∀ old, r.store.producers.get? p = some old → record.schema = old.schema)
    (id : UInt64) (reason : String) :
    Ends (disable p record id reason) r'
      (fun _ r'' => Quiet r r'' ∧ r''.archive = r'.archive) (fun _ _ => False) := by
  obtain ⟨fits, d, found⟩ := h.known p record known
  refine ends_disable_of (fun _ => ⟨h, rfl⟩) fun _ => ⟨?_, rfl⟩
  have noted : Quiet r { r' with notices := r'.notices ++ [.drift p.text id reason] } :=
    ⟨h.built, h.slots, h.kept, h.known⟩
  exact noted.setProducer ⟨fits.proper, fits.layout, fits.four, fits.ascending⟩ same found

/-! ## Calls that make something -/

section
variable (sound : r.Sound)

include sound

theorem ends_onArchive_builds {act : Archive.Action α} (builds : Archive.Builds none act) :
    EndsQuietly (onArchive act) r := by
  have quiet {a : Archive} (built : Archive.Built none r.archive a) :
      Quiet r { r with archive := a } := sound.quiet_of_built built fun _ none => by cases none
  have led {a : Archive} (raised : Archive.Raised none r.archive a) :
      Quiet r { r with archive := a } ∧ Led r { r with archive := a } :=
    ⟨quiet (raised.built sound.laidOut), raised.mono fun _ => .shared⟩
  refine ends_onArchive.2 ((builds r.archive sound.laidOut).mono (fun _ _ => led) ?_)
  rintro e a (raised | ⟨unencodable, built⟩)
  · exact (led raised).imp_right .inr
  · exact ⟨quiet built, .inl unencodable⟩

theorem ends_prepare (proper : p.IsProper) (s : EvaluationSchema) (inputs : Variables)
    (response : Response) :
    Ends (prepare (ofSchema p s) s inputs response) r
      (fun _ r' => (Quiet r r' ∧ Led r r') ∧ r'.store = r.store ∧
        ∃ d, r'.archive.at? (EvaluationPart.ids.path p.root) = some d)
      (fun e r' => Quiet r r' ∧ (e.isUnencodable ∨ Led r r')) := by
  have hr := Producer.segments_root proper
  have contains := sound.laidOut.contains_eq hr .ids
  refine ends_prepare_of (fun there mismatch _ => ?_)
    (fun _ _ _ => ⟨sound.quiet_self, .inr (led_of_archive_eq rfl)⟩) fun absent => ?_
  · have there : r.archive.contains (EvaluationPart.ids.path p.root) = true := there
    rw [contains, Option.isSome_iff_exists] at there
    exact ⟨⟨sound.quiet_self, led_of_archive_eq rfl⟩, rfl, there⟩
  · have absent : r.archive.contains (EvaluationPart.ids.path p.root) = false := absent
    rw [contains, Option.isSome_eq_false_iff, Option.isNone_iff_eq_none] at absent
    have quiet {a : Archive} (built : Archive.Built (some p.root) r.archive a) :
        Quiet r { r with archive := a } :=
      sound.quiet_of_built built fun root own => Option.some.inj own ▸ absent
    have led {a : Archive} (founded : Archive.Founded p.root r.archive a) :
        Quiet r { r with archive := a } ∧ Led r { r with archive := a } :=
      ⟨quiet (founded.raised.built sound.laidOut),
        founded.mono fun _ ⟨built, there⟩ => .founded absent built there⟩
    refine (Archive.ends_createEvaluations hr sound.laidOut).mono ?_ ?_
    · rintro _ a ⟨founded, there⟩
      exact ⟨led founded, rfl, there⟩
    · rintro e a (founded | ⟨unencodable, built⟩)
      · exact (led founded).imp_right .inr
      · exact ⟨quiet built, .inl unencodable⟩

theorem ends_allocate (proper : p.IsProper) (inputs : Variables) (response : Response)
    (active : ActiveSet) : EndsQuietly (allocate p inputs response active) r := by
  have same : Led r r := led_of_archive_eq rfl
  refine ends_allocate_of (fun _ => ⟨sound.quiet_self, same⟩)
    (fun _ _ => ⟨sound.quiet_self, .inr same⟩) fun s unknown captured => ?_
  obtain ⟨four, ascending⟩ := EvaluationSchema.fits_of_capture captured
  refine (ends_prepare sound proper s inputs response).mono ?_ fun _ _ quiet => quiet
  rintro mismatch r₁ ⟨⟨quiet, led⟩, -, d, found⟩
  have noted : Quiet r
      { r₁ with notices := r₁.notices ++ mismatch.toList.map (.unfitStorage p.text) } :=
    ⟨quiet.built, quiet.slots, quiet.kept, quiet.known⟩
  exact ⟨noted.setProducer ⟨proper, rfl, four, ascending⟩
    (fun old known => by rw [unknown] at known; cases known) found, led⟩

theorem ends_declareSource {owner : Source} (proper : owner.IsProper) (source : Source) :
    EndsQuietly (declareSource owner source) r :=
  ends_onArchive_builds sound <|
    Archive.builds_createLink source.root (apart_sources proper source.linkName)
      ⟨owner, proper, _, rfl⟩

theorem ends_storeParameters (proper : p.IsProper) (parameters : VariableParameters) :
    EndsQuietly (storeParameters p parameters) r := by
  unfold storeParameters
  refine ends_bind.2 (ends_get.2 (ends_ite.2 ⟨fun _ => ?_,
    fun _ => ends_pure.2 ⟨sound.quiet_self, led_of_archive_eq rfl⟩⟩))
  exact ends_onArchive_builds sound <| .forM fun k _ =>
    Archive.builds_writeTable (Producer.segments_root proper) parameters k

end

end Recording
end StudyArchive
