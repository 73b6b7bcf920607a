import StudyArchive.Proofs.Evaluation.History
import StudyArchive.Proofs.Evaluation.Labels
import StudyArchive.Proofs.Evaluation.Rules
/-
# Allocating

The first evaluation of a producer that the store does not know yet makes its datasets, or is
compared with those that are there.  The comparison takes an answer from any archive that is laid
out for evaluations (`LaidOut.exists_drift`), and changes nothing; what is made is labelled
(`Recording.ends_allocate_new`).
-/

namespace StudyArchive

open EvaluationLayout

namespace Archive

variable {a : Archive} {p : Producer} {s : EvaluationSchema} {root : Path}

/-- The comparison of extents finds whatever is there. -/
theorem LaidOut.exists_firstDrift (laid : a.LaidOut) (hr : IsProducerRoot root) (n : Nat)
    (parts : List EvaluationPart) :
    ∃ found, a.firstDrift n (parts.map fun part => (part.path root, part.shape? s)) =
      .ok found := by
  induction parts with
  | nil => exact ⟨none, rfl⟩
  | cons part parts ih =>
    obtain ⟨found, rest⟩ := ih
    rw [List.map_cons, firstDrift_cons, laid.extentsFound_eq hr part]
    show ∃ found, (if _ = _ then _ else _) = Except.ok found
    split
    · exact ⟨found, rest⟩
    · exact ⟨_, rfl⟩

/-- Where there is a column of identifiers, the comparison with a schema takes an answer. -/
theorem LaidOut.exists_drift (laid : a.LaidOut) (hr : IsProducerRoot p.root)
    (four : s.variableCounts.length = 4) {d : Dataset}
    (found : a.at? (EvaluationPart.ids.path p.root) = some d) :
    ∃ mismatch, a.evaluationDrift (ofSchema p s) s = .ok mismatch := by
  have fits := laid.fits hr found
  obtain ⟨n, tail, dims⟩ := List.exists_cons_of_ne_nil
    ((laid.sound.sound_of_at? found).axis_of_extensible fits.extensible)
  have counted : a.countRows (ofSchema p s).ids = .ok n := laid.sound.countRows_eq_ok found dims
  unfold evaluationDrift
  rw [counted, EvaluationPart.rowShapes_ofSchema p four]
  exact laid.exists_firstDrift hr n _

end Archive

namespace Recording

variable {r r' : Recording} {p : Producer} {s : EvaluationSchema}

/-- Allocating leaves a producer that it does not store, or knows already, as it is. -/
theorem allocate_of_not_new (old : ¬(r.store.selects p && !r.store.producers.contains p) = true)
    (inputs : Variables) (response : Response) (active : ActiveSet) :
    allocate p inputs response active r = .ok () r := by
  unfold allocate
  show (if (r.store.selects p && !r.store.producers.contains p) = true then _ else _ : Action Unit)
    r = _
  rw [if_neg old]
  rfl

theorem exists_captured (new : (r.store.selects p && !r.store.producers.contains p) = true)
    {inputs : Variables} {response : Response} {active : ActiveSet}
    (ran : allocate p inputs response active r = .ok () r') :
    ∃ s, EvaluationSchema.capture p inputs response active = .ok s := by
  have ended : Ends (allocate p inputs response active) r
      (fun _ _ => ∃ s, EvaluationSchema.capture p inputs response active = .ok s)
      fun _ _ => True :=
    ends_allocate_of (fun old => absurd new old) (fun _ _ => trivial) fun s _ captured =>
      ends_of_forall (fun _ _ _ => ⟨s, captured⟩) fun _ _ _ => trivial
  exact ended.good_of_eq ran

/-- What comes of allocating a producer that was not known. -/
inductive Allocated (r : Recording) (p : Producer) (s : EvaluationSchema) (response : Response)
    (r' : Recording) : Prop
  /-- There are datasets, and they do not fit. -/
  | unfit (known : r'.store.producers.get? p = some ⟨s, ofSchema p s, true⟩)
      (same : r'.archive = r.archive)
  /-- There are datasets, and they fit. -/
  | fit (agrees : r.archive.evaluationDrift (ofSchema p s) s = .ok none)
      (known : r'.store.producers.get? p = some ⟨s, ofSchema p s, false⟩)
      (same : r'.archive = r.archive)
  /-- There were none, and those that were made are labelled. -/
  | made (absent : r.archive.at? (EvaluationPart.ids.path p.root) = none)
      (known : r'.store.producers.get? p = some ⟨s, ofSchema p s, false⟩)
      (labels : r.archive.tree.IdsFirst → EvaluationPart.gradients.shape? s ≠ none →
        r'.archive.tree.Labelled p.root s response)

/-- Allocating compares with the datasets that are there, which always takes an answer, or makes
them if there are none. -/
theorem ends_allocate_new (sound : r.Sound) (proper : p.IsProper)
    (unknown : r.store.producers.get? p = none) (selected : r.store.selects p = true)
    {inputs : Variables} {response : Response} {active : ActiveSet}
    (captured : EvaluationSchema.capture p inputs response active = .ok s) :
    Ends (allocate p inputs response active) r (fun _ => Allocated r p s response)
      (fun _ _ => r.archive.at? (EvaluationPart.ids.path p.root) = none) := by
  have hr := Producer.segments_root proper
  have put (t : Table Producer ProducerRecord) (record : ProducerRecord) :
      (t.insert p record).get? p = some record := by
    rw [Table.get?_insert, if_pos rfl]
  obtain ⟨four, -⟩ := EvaluationSchema.fits_of_capture captured
  have contains : r.archive.contains (ofSchema p s).ids = _ := sound.laidOut.contains_eq hr .ids
  refine ends_allocate_of_captured selected unknown captured (ends_prepare_of
    (fun there mismatch compared => ?_) (fun there e failed => ?_) fun absent => ?_)
  · cases mismatch with
    | none => exact .fit compared (put _ _) rfl
    | some reason => exact .unfit (put _ _) rfl
  · rw [contains] at there
    obtain ⟨d, found⟩ := Option.isSome_iff_exists.1 there
    obtain ⟨mismatch, compared⟩ := sound.laidOut.exists_drift hr four found
    cases compared.symm.trans failed
  · rw [contains] at absent
    have none := Option.not_isSome_iff_eq_none.1 (Bool.eq_false_iff.1 absent)
    refine ends_of_forall (fun _ a ran => .made none (put _ _) fun first has => ?_)
      fun _ _ _ => none
    have labelled := Archive.labels_createEvaluations (v := inputs) (r := response) hr
      sound.laidOut (first.unscaled p.root hr none) has
    exact labelled.good_of_eq ran

end Recording
end StudyArchive
