import StudyArchive.Proofs.Evaluation.Allocating
import StudyArchive.Proofs.Evaluation.Storing
/-
# Labels in force

The allocation that makes a producer's datasets labels its gradients by its own schema.  So they
stay labelled, whatever calls come and however often the file is cut short and opened again, as long
as it is not cut within that allocation; and responses of the same variables and functions are filed
under these labels (`Recording.labels_gradients`).

Allocating again compares extents only, and writes nothing.  Whoever reuses datasets whose extents
agree gets the labels of the one who made them: two interfaces of one model that differ in their
kind share a group, and the second one's derivatives go under the first one's variables
(`Recording.keeps_labels_of_other`).
-/

namespace StudyArchive

open EvaluationLayout

namespace Recording

variable {start r r₁ r' : Recording} {size : Nat} {p : Producer} {root : Path}
  {s : EvaluationSchema} {response : Response}

/-- A response that is stored below a root, for a producer whose derivatives are by the same
variables and of the same functions as in a schema, has its gradients filed as in that schema. -/
def FilesGradients (r : Recording) (root : Path) (s : EvaluationSchema) : Prop :=
  ∀ (p : Producer) (id : UInt64) (i : Nat) (schema : EvaluationSchema) (response : Response)
    (r' : Recording), p.root = root → r.store.schema? p = some schema →
    schema.derivatives = s.derivatives → schema.gradientIndices = s.gradientIndices →
    r.store.selects p = true → r.store.slots.get? (p, id) = some i →
    schema.responseDrift? response = none → storeResponse p id response r = .ok () r' →
    ∃ d, r'.archive.at? (gradientsOf root) = some d ∧
      response.FillsGradients s fun index => d.cell (i :: index)

theorem Sound.filesGradients (sound : r.Sound) (has : EvaluationPart.gradients.shape? s ≠ none) :
    r.FilesGradients root s := by
  rintro p id i schema response r' rfl known same_variables same_functions selected waits agrees
    returns
  obtain ⟨record, known', -⟩ := sound.waits p id i waits
  obtain rfl := Option.some.inj ((EvaluationStore.schema?_of_get? known').symm.trans known)
  have same :
      EvaluationPart.gradients.shape? record.schema = EvaluationPart.gradients.shape? s := by
    unfold EvaluationPart.shape?
    rw [same_variables, same_functions]
  cases (ends_storeResponse sound id response).good_of_eq returns with
  | passed none _ => cases (none selected).symm.trans waits
  | dropped _ known'' drift _ _ =>
    obtain rfl := Option.some.inj (known'.symm.trans known'')
    exact absurd agrees drift
  | stored waits' known'' _ answered _ store =>
    obtain rfl := Option.some.inj (known'.symm.trans known'')
    obtain rfl := Option.some.inj (waits.symm.trans waits')
    obtain ⟨shape, some⟩ := Option.ne_none_iff_exists'.1 has
    obtain ⟨_, d, -, found, -, -, -, fills⟩ := (sound.stored waits known' answered store).parts
      .gradients (by decide) shape (same.trans some)
    refine ⟨d, found, fun k f j v at_ at' => fills k f j v ?_ ?_⟩
    · rw [same_functions, at_]
    · rw [same_variables, at']

theorem OnTheWay.labelled {c : StoreCall} {b : Archive} (way : OnTheWay r c b)
    (hr : IsProducerRoot root) (h : r.archive.tree.Labelled root s response)
    (keeps : r.archive.tree.KeepsScales b.tree) : b.tree.Labelled root s response := by
  refine h.keeps keeps fun q place d found => ?_
  rcases way.furthered_or_reworked with furthered | ⟨root', hr', reworked⟩
  · cases furthered with
    | shared built => exact built.scales hr place found
    | founded _ built _ => exact built.scales hr place found
  · have apart (part : EvaluationPart) : q ≠ part.path root' := fun same =>
      not_isScalePlace_part hr' hr part (same ▸ place)
    exact ⟨d, (reworked.rest q apart).trans found, .refl d⟩

/-- Once labelled, gradients stay so in whatever comes of the recording. -/
theorem Sound.stays_labelled (sound : r₁.Sound) {P : Tree → Prop}
    (throughout : r₁.archive.mounted.Throughout [] P) (hr : IsProducerRoot root)
    (h : r₁.archive.tree.Labelled root s response) {w : LogWriter}
    (isOpen : r₁.archive.container.writer = some w)
    (led : LeadsTo (w.log r₁.archive.mounted.disk).length r₁ r') :
    r'.Sound ∧ r'.archive.tree.Labelled root s response := by
  obtain ⟨frames, bytes, here⟩ := throughout.from_here
    (Q := fun t => t.IsLaidOut ∧ t.Labelled root s response) ⟨sound.laidOut.tree, h⟩ isOpen
  have later := led.throughout sound here bytes.le (fun _ => And.left)
    fun _ _ _ sound ⟨_, labelled⟩ way keeps =>
      ⟨(sound.laidOut_onTheWay way).tree, way.labelled hr labelled keeps⟩
  exact ⟨later.1, later.2.live.2⟩

/-- In every recording that a new archive leads to, through whatever calls and crashes: the
allocation that makes a producer's datasets labels its gradients by its own schema, and so they stay
labelled in whatever comes of it, with derivatives filed accordingly; a later allocation compares
extents and leaves everything as it is. -/
theorem labels_gradients (fresh : start.Fresh) (led : LeadsTo Header.size start r)
    (proper : p.IsProper) {inputs : Variables} {active : ActiveSet}
    (ran : allocate p inputs response active r = .ok () r₁) {record : ProducerRecord}
    (known : r₁.store.producers.get? p = some record) (enabled : record.disabled = false)
    (has : EvaluationPart.gradients.shape? record.schema ≠ none) :
    (r.archive.at? (EvaluationPart.ids.path p.root) = none →
      ∃ w, r₁.archive.container.writer = some w ∧
        ∀ r', LeadsTo (w.log r₁.archive.mounted.disk).length r₁ r' →
          r'.archive.tree.Labelled p.root record.schema response ∧
            r'.FilesGradients p.root record.schema) ∧
    (r.archive.at? (EvaluationPart.ids.path p.root) ≠ none → r₁.archive = r.archive ∧
      (r.store.producers.get? p = none → ∃ n, ∀ part : EvaluationPart,
        (r.archive.at? (part.path p.root)).map Dataset.dims =
          (part.shape? record.schema).map (n :: ·))) := by
  have hr := Producer.segments_root proper
  obtain ⟨sound, first⟩ := fresh.idsFirst led
  by_cases new : (r.store.selects p && !r.store.producers.contains p) = true
  · obtain ⟨s, captured⟩ := exists_captured new ran
    obtain ⟨selected, unknown⟩ := Bool.and_eq_true_iff.1 new
    have unknown : r.store.producers.get? p = none := by
      simpa [Table.contains] using unknown
    cases (ends_allocate_new sound proper unknown selected captured).good_of_eq ran with
    | unfit known' _ =>
      obtain rfl := Option.some.inj (known.symm.trans known')
      cases enabled
    | fit agrees known' same =>
      obtain rfl := Option.some.inj (known.symm.trans known')
      obtain ⟨four, -⟩ := EvaluationSchema.fits_of_capture captured
      obtain ⟨n, -, dims⟩ := sound.laidOut.dims_of_drift hr four agrees
      refine ⟨fun absent => ?_, fun _ => ⟨same, fun _ => ⟨n, dims⟩⟩⟩
      have column := dims .ids
      rw [absent] at column
      cases column
    | made absent known' labels =>
      obtain rfl := Option.some.inj (known.symm.trans known')
      refine ⟨fun _ => ?_, fun there => absurd absent there⟩
      have led₁ := led.ran (c := .allocate p inputs response active) proper ran
      obtain ⟨sound₁, first₁⟩ := fresh.idsFirst led₁
      obtain ⟨w, isOpen⟩ := first₁.ready.isOpen
      refine ⟨w, isOpen, fun r' led' => ?_⟩
      obtain ⟨sound', labelled⟩ :=
        sound₁.stays_labelled first₁ hr (labels first.live has) isOpen led'
      exact ⟨labelled, sound'.filesGradients has⟩
  · obtain rfl : r = r₁ := by
      cases (allocate_of_not_new new inputs response active).symm.trans ran
      rfl
    obtain ⟨-, d, found⟩ := sound.known p record known
    exact ⟨fun absent => (by cases absent.symm.trans found),
      fun _ => ⟨rfl, fun unknown => (by cases unknown.symm.trans known)⟩⟩

-- The archive is new, and two interfaces that differ in their kind are allocated in it.
theorem allocates_two_kinds : (started {}).any fun start =>
    (start.archive.at? (EvaluationPart.ids.path (Path.ofTexts ["interfaces", "i", "m"]))).isNone &&
    (okState? (allocate (.interface "i" "m" .simulation) {} (.blank ⟨[2], [1]⟩ []) ⟨[2], [1]⟩
      start)).any fun r =>
      (r.store.producers.get? (.interface "i" "m" .simulation)).any (fun record =>
        record.disabled = false && EvaluationPart.gradients.shape? record.schema ≠ none) &&
      (okState? (allocate (.interface "i" "m" .approximation) {} (.blank ⟨[2], [2]⟩ [])
        ⟨[2], [2]⟩ r)).any fun r₁ =>
        (r₁.store.producers.get? (.interface "i" "m" .approximation)).any (fun record =>
          record.disabled = false && EvaluationPart.gradients.shape? record.schema ≠ none &&
            record.schema.derivatives = [2]) &&
        (r₁.archive.at? (gradientsOf (Path.ofTexts ["interfaces", "i", "m"]))).any (fun d =>
          d.scalesAt 2 = [⟨numbersOf (Path.ofTexts ["interfaces", "i", "m"]), "variables"⟩]) &&
        (r₁.archive.at? (numbersOf (Path.ofTexts ["interfaces", "i", "m"]))).any fun e =>
          e.cell [0] = .uint 1 := by
  decide +kernel

theorem labels_gradients_of_interface : ∃ start r record w, start.Fresh ∧
    allocate (.interface "i" "m" .simulation) {} (.blank ⟨[2], [1]⟩ []) ⟨[2], [1]⟩ start =
      .ok () r ∧
    r.store.producers.get? (.interface "i" "m" .simulation) = some record ∧
    start.archive.at? (EvaluationPart.ids.path (Path.ofTexts ["interfaces", "i", "m"])) = none ∧
    r.archive.container.writer = some w ∧
    ∀ r', LeadsTo (w.log r.archive.mounted.disk).length r r' →
      r'.archive.tree.Labelled (Path.ofTexts ["interfaces", "i", "m"]) record.schema
          (.blank ⟨[2], [1]⟩ []) ∧
        r'.FilesGradients (Path.ofTexts ["interfaces", "i", "m"]) record.schema := by
  obtain ⟨start, opened, ready⟩ := (Option.any_eq_true ..).1 allocates_two_kinds
  obtain ⟨absent, ready⟩ := Bool.and_eq_true_iff.1 ready
  obtain ⟨r, returns, ready⟩ := (Option.any_eq_true ..).1 ready
  obtain ⟨_, ran⟩ := exists_ok_of_okState? returns
  obtain ⟨record, known, ready⟩ := (Option.any_eq_true ..).1 (Bool.and_eq_true_iff.1 ready).1
  simp only [Bool.and_eq_true, decide_eq_true_eq, Option.isNone_iff_eq_none] at absent ready
  have fresh := fresh_of_started rfl rfl opened
  obtain ⟨w, isOpen, labelled⟩ :=
    (labels_gradients fresh .here (by decide) ran known ready.1 ready.2).1 absent
  exact ⟨start, r, record, w, fresh, ran, known, absent, isOpen, labelled⟩

/-- The labels of other storage are kept: an interface of another kind allocates, is told that all
is well, and finds the derivatives by its variable 2 labelled as those by variable 1. -/
theorem keeps_labels_of_other : ∃ start r r₁ record d e, start.Fresh ∧
    LeadsTo Header.size start r ∧
    allocate (.interface "i" "m" .approximation) {} (.blank ⟨[2], [2]⟩ []) ⟨[2], [2]⟩ r =
      .ok () r₁ ∧
    r₁.store.producers.get? (.interface "i" "m" .approximation) = some record ∧
    record.disabled = false ∧ EvaluationPart.gradients.shape? record.schema ≠ none ∧
    record.schema.derivatives = [2] ∧
    r₁.archive.at? (gradientsOf (Producer.interface "i" "m" .approximation).root) = some d ∧
    d.scalesAt 2 = [⟨numbersOf (Producer.interface "i" "m" .approximation).root, "variables"⟩] ∧
    r₁.archive.at? (numbersOf (Producer.interface "i" "m" .approximation).root) = some e ∧
    e.cell [0] = .uint 1 ∧
    ¬r₁.archive.tree.Labelled (Producer.interface "i" "m" .approximation).root record.schema
      (.blank ⟨[2], [2]⟩ []) := by
  obtain ⟨start, opened, ready⟩ := (Option.any_eq_true ..).1 allocates_two_kinds
  obtain ⟨r, returns, ready⟩ := (Option.any_eq_true ..).1 (Bool.and_eq_true_iff.1 ready).2
  obtain ⟨_, ran⟩ := exists_ok_of_okState? returns
  obtain ⟨r₁, returns₁, ready⟩ := (Option.any_eq_true ..).1 (Bool.and_eq_true_iff.1 ready).2
  obtain ⟨_, ran₁⟩ := exists_ok_of_okState? returns₁
  simp only [Bool.and_eq_true, decide_eq_true_eq, Option.any_eq_true] at ready
  obtain ⟨⟨⟨record, known, ⟨enabled, has⟩, by_two⟩, d, there, attached⟩, e, found, first⟩ := ready
  refine ⟨start, r, r₁, record, d, e, fresh_of_started rfl rfl opened,
    LeadsTo.here.ran (c := .allocate ..) (by decide) ran, ran₁, known, enabled, has, by_two, there,
    attached, found, first, fun labelled => ?_⟩
  obtain ⟨e', found', lists⟩ := labelled.numbers
  obtain rfl := Option.some.inj (found.symm.trans found')
  have other := lists.cells 0 (2 : UInt64) (by rw [by_two]; rfl)
  cases first.symm.trans other

end Recording
end StudyArchive
