import StudyArchive.Proofs.Evaluation.Quiet
/-
# Calls of the store of evaluations

What comes of the two steps in which an evaluation is stored.  Storing inputs is refused or appends
a row to every part of the producer (`InputsEnd`); storing a response passes it over, drops the row
that waits, or writes into it (`ResponseEnd`).
-/

namespace StudyArchive

open EvaluationLayout
open Dataset (Appended Onward Touched)

/-- Inputs leave the parts that responses go into at the fill. -/
theorem EvaluationPart.inputRow_of_mem_answered {part : EvaluationPart} {s : EvaluationSchema}
    {x : EvaluationInputs} (mem : part ∈ answered) {shape : List Nat}
    (has : part.shape? s = some shape) :
    part.inputRow s x = List.replicate (volume shape) part.fill := by
  have reserved : part.inputRow s x =
      List.replicate (volume ((part.shape? s).getD [])) part.fill := by
    cases part <;> first | rfl | exact absurd mem (by decide)
  rw [reserved, has, Option.getD_some]

namespace Recording

variable {r r' : Recording} {p : Producer}

theorem get?_slots_freed (r : Recording) (p q : Producer) (id id' : UInt64) :
    (r.freed p id).store.slots.get? (q, id') =
      if (p, id) = (q, id') then none else r.store.slots.get? (q, id') :=
  Table.get?_erase ..

theorem Sound.freed (sound : r.Sound) (p : Producer) (id : UInt64) : (r.freed p id).Sound where
  laidOut := sound.laidOut
  known := sound.known
  waits q id' i waits := by
    rw [get?_slots_freed] at waits
    split at waits
    · cases waits
    · exact sound.waits q id' i waits
  unshared q id₁ q' id₂ i waits waits' same := by
    rw [get?_slots_freed] at waits waits'
    split at waits
    · cases waits
    · split at waits'
      · cases waits'
      · exact sound.unshared q id₁ q' id₂ i waits waits' same

/-! ## Storing inputs -/

/-- What comes of storing inputs: nothing, or a row more for every part of the producer. -/
inductive InputsEnd (r : Recording) (p : Producer) (x : EvaluationInputs) (r' : Recording) : Prop
    where
  | refused (quiet : Quiet r r') (same : r'.archive = r.archive)
  | stored {record : ProducerRecord} {n : Nat}
      (known : r.store.producers.get? p = some record) (fit : x.Fit record.schema)
      (dims : ∀ part : EvaluationPart, (r.archive.at? (part.path p.root)).map Dataset.dims =
        (part.shape? record.schema).map (n :: ·))
      (appended : Archive.Reworked p.root
        (fun part d d' => Appended d (part.inputRow record.schema x) d') r.archive r'.archive)
      (way : Archive.Passes (Archive.InputsSoFar p.root record.schema x r.archive) r.archive
        r'.archive)
      (slots : r'.store.slots = r.store.slots.insert (p, x.id) n)
      (producers : r'.store.producers = r.store.producers)

/-- What comes of storing inputs if a record has no frame. -/
structure InputsCut (r : Recording) (p : Producer) (r' : Recording) : Prop where
  onward : Archive.Reworked p.root (fun _ => Onward) r.archive r'.archive
  store : r'.store = r.store

theorem ends_storeVariables (sound : r.Sound) (x : EvaluationInputs) :
    Ends (storeVariables p x.id x.active x.values) r (fun _ => InputsEnd r p x)
      (fun e r' => r' = r ∨ e.isUnencodable ∧ InputsCut r p r') := by
  have refused : InputsEnd r p x r := .refused sound.quiet_self rfl
  refine ends_storeVariables_of (fun _ => refused) (fun _ => .inl rfl) (fun _ _ _ => refused)
    (fun record reason known _ _ => ?_) (fun _ _ _ _ => .inl rfl)
    fun record n known _ drift ascending agrees counted => ?_
  · refine (ends_disable sound.quiet_self known (fun old known' => ?_) x.id reason).mono
      (fun _ _ h => .refused h.1 h.2) fun _ _ => False.elim
    rw [known] at known'
    cases known'
    rfl
  · obtain ⟨fits, -⟩ := sound.known p record known
    have hr := Producer.segments_root fits.proper
    have fit := EvaluationInputs.fit_of_checks drift (Producer.ascending_of_check ascending)
    rw [fits.layout] at agrees counted ⊢
    obtain ⟨n', counted', dims⟩ := sound.laidOut.dims_of_drift hr fits.four agrees
    obtain rfl : n' = n := Except.ok.inj (counted'.symm.trans counted)
    refine (Archive.ends_appendInputs sound.laidOut hr fit dims).mono ?_ ?_
    · rintro _ a ⟨appended, way⟩
      exact .stored known fit dims appended way rfl rfl
    · rintro e a ⟨unencodable, onward⟩
      exact .inr ⟨unencodable, onward, rfl⟩

/-! ## Storing a response -/

/-- What comes of storing a response: it is passed over, or the slot that waited is gone, and the
response was dropped or is in the row. -/
inductive ResponseEnd (r : Recording) (p : Producer) (id : UInt64) (response : Response)
    (r' : Recording) : Prop where
  | passed (none : r.store.selects p = true → r.store.slots.get? (p, id) = none) (same : r' = r)
  | dropped {record : ProducerRecord} (waits : r.store.slots.get? (p, id) ≠ none)
      (known : r.store.producers.get? p = some record)
      (drift : record.schema.responseDrift? response ≠ none) (quiet : Quiet (r.freed p id) r')
      (same : r'.archive = r.archive)
  | stored {record : ProducerRecord} {i : Nat} (waits : r.store.slots.get? (p, id) = some i)
      (known : r.store.producers.get? p = some record)
      (agrees : record.schema.responseDrift? response = none)
      (answered : Archive.Reworked p.root (EvaluationPart.AnsweredIf record.schema response i)
        r.archive r'.archive)
      (way : Archive.Passes (Archive.Reworked p.root (EvaluationPart.AnsweredSoFar i) r.archive)
        r.archive r'.archive)
      (store : r'.store = (r.freed p id).store)

/-- What comes of storing a response if a record has no frame. -/
structure ResponseCut (r : Recording) (p : Producer) (id : UInt64) (r' : Recording) : Prop where
  touched : ∃ i, r.store.slots.get? (p, id) = some i ∧
    Archive.Reworked p.root (fun _ d d' => Touched d i d') r.archive r'.archive
  store : r'.store = (r.freed p id).store

theorem ends_storeResponse (sound : r.Sound) (id : UInt64) (response : Response) :
    Ends (storeResponse p id response) r (fun _ => ResponseEnd r p id response)
      (fun e r' => r' = r ∨ e.isUnencodable ∧ ResponseCut r p id r') := by
  refine ends_storeResponse_of (fun unselected => ?_) (fun _ waits => ?_) (fun _ _ _ _ => .inl rfl)
    (fun row record reason _ waits known drift => ?_) (fun _ _ _ _ _ _ _ _ => .inl rfl)
    fun i record _ waits known drift passes => ?_
  · exact .passed (fun selected => absurd (selected.symm.trans unselected) (by simp)) rfl
  · exact .passed (fun _ => waits) rfl
  · have quiet : Quiet (r.freed p id) (r.freed p id) := (sound.freed p id).quiet_self
    refine (ends_disable quiet known (fun old known' => ?_) id reason).mono (fun _ _ h => ?_)
      fun _ _ => False.elim
    · exact congrArg ProducerRecord.schema (Option.some.inj (known.symm.trans known'))
    · exact .dropped (by simp [waits]) known (by simp [drift]) h.1 h.2
  · obtain ⟨record', known', awaits⟩ := sound.waits p id i waits
    obtain rfl : record = record' := Option.some.inj (known.symm.trans known')
    obtain ⟨fits, -⟩ := sound.known p record known
    obtain ⟨ascending, gradients, hessians⟩ := ProducerRecord.check_eq_ok passes
    have fit : response.Fit record.schema := Response.fit_of_checks drift
      (Producer.ascending_of_check ascending) gradients hessians
    rw [fits.layout]
    refine ends_onArchive.2 ((Archive.ends_writeResponse sound.laidOut
      (Producer.segments_root fits.proper) fits.ascending fit awaits).mono ?_ ?_)
    · rintro _ a ⟨answered, way⟩
      exact .stored waits known drift answered way rfl
    · rintro e a ⟨unencodable, touched⟩
      exact .inr ⟨unencodable, ⟨i, waits, touched⟩, rfl⟩

end Recording
end StudyArchive
