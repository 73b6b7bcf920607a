import StudyArchive.Proofs.Archive.Footprint
import StudyArchive.Proofs.Evaluation.Courses
import StudyArchive.Proofs.Evaluation.Whole
/-
# The footprint of a producer

The calls about a producer work on the datasets that its places denote: the places of the parts of
its evaluations, and of its tables of parameters (`Producer.IsPlace`).  No other dataset changes its
extents or a cell, whoever shares the archive and whatever lies in it.
-/

namespace StudyArchive

open EvaluationLayout

/-- The places of the datasets of a producer: where the parts of its evaluations and its tables of
parameters lie. -/
def Producer.IsPlace (p : Producer) (path : Path) : Prop :=
  (∃ part : EvaluationPart, path = part.path p.root) ∨
    ∃ k : VariableKind,
      path = ((p.root.join "properties").join "variable_parameters").join k.name

namespace Archive

variable {S : Path → Prop} {path : Path} {p : Producer} {s : EvaluationSchema} {v : Variables}
  {r : Response}

/-! ## Making the datasets of a producer

Everything that is made has a place of the producer, or is a scale. -/

/-- A scale is written where nothing was, so no old dataset changes with it. -/
theorem confined_writeScale {scale : Path} {e : ElementType} {values : List e.Value} :
    Confined S (writeScale scale e values) := by
  intro a coherent
  unfold writeScale
  refine ends_bind.2 (ends_get.2 (ends_ite.2 ⟨fun _ => ends_pure.2 coherent.spared, fun _ => ?_⟩))
  have made : Ends (createEmpty scale e [values.length] none) a
      (fun _ a₁ => Spared S a a₁ ∧
        ∃ new, a.tree.datasets.length ≤ new ∧ a₁.tree.denoted? scale = some new)
      (fun _ => Spared S a) :=
    ends_createEmptyOf (fun _ => coherent.spared) (ends_createDataset_spared coherent)
  refine ends_bind.2 (made.mono ?_ fun _ _ bad => bad)
  rintro _ a₁ ⟨spared, new, young, denotes⟩
  -- What the scale's place denotes now is the new dataset.
  have wrote {a₂ : Archive} (h : Spared (· = scale) a₁ a₂) : Spared S a a₂ := by
    refine ⟨h.coherent, Nat.le_trans spared.length h.length, fun q id known => ?_,
      fun id known apart => ?_⟩
    · exact (h.denotes q id (Nat.lt_of_lt_of_le known spared.length)).trans
        (spared.denotes q id known)
    · refine (spared.same id known apart).trans
        (h.same id (Nat.lt_of_lt_of_le known spared.length) ?_)
      rintro _ rfl denotes'
      cases denotes.symm.trans denotes'
      exact Nat.not_lt_of_le young known
  exact (confined_writeVector (S := (· = scale)) rfl a₁ spared.coherent).mono
    (fun _ _ => wrote) fun _ _ => wrote

theorem confined_putScale {label : String} {axis : Nat} {e : ElementType} {values : List e.Value} :
    Confined S (putScale path label axis e values) :=
  confined_writeScale.bind fun _ => confined_attachScale

theorem confined_createBlock {l : EvaluationLayout} {e : ElementType} {fill : Option e.Value}
    {α : Type} {block : VariableBlock α} : Confined S (createBlock l path e fill block) := by
  unfold createBlock
  refine .ite (.pure _) (confined_createEmpty.bind fun _ => ?_)
  exact confined_attachScale.bind fun _ => confined_putScale.bind fun _ =>
    confined_putScale.bind fun _ => confined_putScale

theorem confined_createFunctions {l : EvaluationLayout} :
    Confined S (createFunctions l s r) := by
  unfold createFunctions
  refine .ite (.pure _) (confined_createEmpty.bind fun _ => confined_createEmpty.bind fun _ =>
    confined_writeScale.bind fun _ => .bind (.forIn fun _ _ _ => ?_) fun _ => .pure _)
  exact confined_attachScale.bind fun _ => confined_attachScale.bind fun _ => .pure _

theorem confined_createDerived {l : EvaluationLayout} {indices axes : List Nat} :
    Confined S (createDerived l s r indices axes path) :=
  confined_createEmpty.bind fun _ => confined_attachScale.bind fun _ =>
    confined_putScale.bind fun _ => .bind
      (.forIn fun _ _ _ => confined_attachScale.bind fun _ => .pure _) fun _ => .pure _

theorem confined_createDerivatives {l : EvaluationLayout} :
    Confined S (createDerivatives l s) := by
  unfold createDerivatives
  cases l.derivatives with
  | none => exact .pure _
  | some path =>
    exact confined_createEmpty.bind fun _ => confined_writeScale.bind fun _ =>
      confined_attachScale.bind fun _ => confined_attachScale

theorem confined_createOptional {l : EvaluationLayout} : Confined S (createOptional l s r) := by
  have metadata (path : Path) : Confined S (do
      createReals path [s.metadata]
      attachIds l path
      putScale path "labels" 1 .text r.metadataLabels) :=
    confined_createEmpty.bind fun _ => confined_attachScale.bind fun _ => confined_putScale
  have derived (indices axes : List Nat) (path : Path) :
      Confined S (createDerived l s r indices axes path) := confined_createDerived
  have each := (Confined.optional l.gradients (derived s.gradientIndices [2])).bind fun _ =>
    (Confined.optional l.hessians (derived s.hessianIndices [2, 3])).bind fun _ =>
      Confined.optional l.metadata metadata
  refine cast (congrArg (Confined S) ?_) each
  unfold createOptional
  cases l.gradients <;> cases l.hessians <;> cases l.metadata <;> rfl

/-- Making the datasets of a producer changes none that is there. -/
theorem confined_createEvaluations {l : EvaluationLayout} :
    Confined S (createEvaluations l s v r) :=
  confined_createEmpty.bind fun _ => confined_createBlock.bind fun _ =>
    confined_createBlock.bind fun _ => confined_createBlock.bind fun _ =>
    confined_createBlock.bind fun _ => confined_createFunctions.bind fun _ =>
    confined_createDerivatives.bind fun _ => confined_createOptional

/-! ## Storing evaluations and parameters

Rows are appended and written in the places of the parts; records in those of the tables. -/

theorem isPlace_part (p : Producer) (part : EvaluationPart) : p.IsPlace (part.path p.root) :=
  .inl ⟨part, rfl⟩

/-- Appending a row to a part changes datasets at its place only. -/
theorem confined_appendPart {root : Path} {x : EvaluationInputs} {part : EvaluationPart}
    (place : part.shape? s ≠ none → S (part.path root)) :
    Confined S (part.appendPart root s x) := by
  unfold EvaluationPart.appendPart
  cases shape : part.shape? s with
  | none => exact .pure _
  | some row =>
    replace place := place (by simp [shape])
    cases part with
    | ids => exact confined_appendScalar place
    | functions | gradients | hessians | metadata =>
      exact (confined_reserveRow place).bind fun _ => .pure _
    | _ => exact confined_appendVector place

/-- Appending inputs changes datasets at places of the producer only. -/
theorem confined_appendInputs {x : EvaluationInputs} (fit : x.Fit s) :
    Confined p.IsPlace (Recording.appendInputs (ofSchema p s) s x.id x.active x.values) := by
  rw [EvaluationPart.appendInputs_eq p fit]
  exact .forM fun part _ => confined_appendPart fun _ => isPlace_part p part

/-- Writing a response changes datasets at places of the producer only. -/
theorem confined_writeResponse {row : Nat} :
    Confined p.IsPlace (Recording.writeResponse (ofSchema p s) s r row) := by
  rw [EvaluationPart.writeResponse_eq]
  refine .forM fun part _ => ?_
  have place := isPlace_part p part
  unfold EvaluationPart.answerPart
  cases part.shape? s with
  | none => exact .pure _
  | some _ =>
    cases part with
    | functions => exact confined_setVector place
    | gradients => exact .ite (confined_setMatrix place) (.pure _)
    | hessians => exact .ite (confined_setMatrices place) (.pure _)
    | metadata => exact .ite (.pure _) (confined_setVector place)
    | _ => exact .pure _

/-- Storing parameters changes datasets at places of the producer only. -/
theorem confined_writeTable {parameters : VariableParameters} {k : VariableKind} :
    Confined p.IsPlace
      (Recording.writeTable ((p.root.join "properties").join "variable_parameters")
        parameters k) := by
  have write {rows : List Datum} : Confined p.IsPlace (writeRecords
      (((p.root.join "properties").join "variable_parameters").join k.name) rows) :=
    confined_writeRecords (.inr ⟨k, rfl⟩)
  refine .bind (.liftExcept _) fun table => .get fun a => ?_
  exact .ite write (confined_createCompound.bind fun _ => write)

end Archive

namespace Recording

variable {r r' : Recording} {p q : Producer}

/-! ## Calls -/

/-- A step of the archive that is confined to places. -/
theorem spared_onArchive {S : Path → Prop} {act : Archive.Action Unit}
    (confined : Archive.Confined S act) (coherent : r.archive.Coherent) :
    Archive.Spared S r.archive (stateAfter (onArchive act r)).archive := by
  rw [stateAfter_onArchive]
  exact (confined r.archive coherent).state

theorem Allocation.spared (h : Allocation r p r') (coherent : r.archive.Coherent) :
    Archive.Spared p.IsPlace r.archive r'.archive := by
  have each {a : Archive} (made : a = r.archive ∨ ∃ s inputs response,
      a = stateAfter (Archive.createEvaluations (ofSchema p s) s inputs response r.archive)) :
      Archive.Spared p.IsPlace r.archive a := by
    rcases made with rfl | ⟨s, inputs, response, rfl⟩
    · exact coherent.spared
    · exact (Archive.confined_createEvaluations r.archive coherent).state
  cases h with
  | kept made => exact each made
  | allocated made _ _ => exact each made

theorem InputsCourse.spared {x : EvaluationInputs}
    {result : EStateM.Result StudyError Recording Unit}
    (h : InputsCourse r p x result) (coherent : r.archive.Coherent) (knows : r.Knows) :
    Archive.Spared p.IsPlace r.archive (stateAfter result).archive := by
  have appends {record : ProducerRecord} (known : r.store.producers.get? p = some record)
      (fit : x.Fit record.schema) :
      Archive.Spared p.IsPlace r.archive (stateAfter
        (appendInputs record.layout record.schema x.id x.active x.values r.archive)) := by
    rw [(knows p record known).layout]
    exact (Archive.confined_appendInputs fit r.archive coherent).state
  cases h with
  | passed => exact coherent.spared
  | refused _ => exact coherent.spared
  | strayed _ _ retired => cases retired <;> exact coherent.spared
  | reserved known _ fit _ _ appended =>
    have spared := appends known fit
    rw [appended] at spared
    exact spared
  | cut known _ fit _ failed =>
    have spared := appends known fit
    rw [failed] at spared
    exact spared

theorem ResponseCourse.spared {x : Arrival} {result : EStateM.Result StudyError Recording Unit}
    (h : ResponseCourse r x result) (coherent : r.archive.Coherent) (knows : r.Knows) :
    Archive.Spared x.producer.IsPlace r.archive (stateAfter result).archive := by
  cases h with
  | passed _ => exact coherent.spared
  | refused _ _ => exact coherent.spared
  | dropped _ _ retired => cases retired <;> exact coherent.spared
  | written _ known =>
    rw [(knows x.producer _ known).layout]
    exact spared_onArchive (r := r.freed x.producer x.id) Archive.confined_writeResponse coherent

/-- What the calls about a producer change lies at places of the producer. -/
theorem spared_after (coherent : r.archive.Coherent) (knows : r.Knows) {c : StoreCall}
    (about : c.producer? = some p) :
    Archive.Spared p.IsPlace r.archive (c.after r).archive := by
  cases c with
  | allocate p' inputs response active =>
    cases about
    exact ((ends_allocate_course r p inputs response active).mono
      (fun _ _ course => course.spared coherent) fun _ _ course => course.spared coherent).state
  | storeVariables p' x =>
    cases about
    have course : InputsCourse r p x _ := ends_result.1 (ends_storeVariables_course r p x)
    exact course.spared coherent knows
  | storeResponse p' id response =>
    cases about
    exact (course_storeResponse r ⟨p, id, response⟩).spared coherent knows
  | abandon p' id => exact coherent.spared
  | storeParameters p' parameters =>
    cases about
    show Archive.Spared p.IsPlace r.archive (stateAfter (storeParameters p parameters r)).archive
    rw [storeParameters_eq]
    split
    · exact spared_onArchive (.forM fun k _ => Archive.confined_writeTable) coherent
    · exact coherent.spared
  | declareSource owner source => cases about
  | addMethodModel id => cases about
  | setTopModel id => cases about
  | select models interfaces => cases about

/-- Whatever call is made, an archive stays open and sound, and right about what paths denote. -/
theorem coherent_after (coherent : r.archive.Coherent) (knows : r.Knows) (c : StoreCall) :
    (c.after r).archive.Coherent := by
  cases about : c.producer? with
  | some p => exact (spared_after coherent knows about).coherent
  | none =>
    cases c with
    | declareSource owner source =>
      show (stateAfter (declareSource owner source r)).archive.Coherent
      unfold declareSource
      rw [stateAfter_onArchive]
      exact (Archive.ends_createLink_coherent coherent ..).state
    | addMethodModel id => exact coherent
    | setTopModel id => exact coherent
    | select models interfaces => exact coherent
    | _ => cases about

/-- A store that knows no producers is right about them. -/
theorem knows_of_new (new : r.store.producers = ∅) : r.Knows := by
  intro p record known
  rw [new] at known
  cases known

/-- An archive that is shared with whomever stays open and sound over a run. -/
theorem coherent_afterAll (coherent : r.archive.Coherent) (knows : r.Knows) {turns : List Turn}
    (shared : ∀ a, .elsewhere a ∈ turns → a.Coherent) :
    (Turn.afterAll r turns).archive.Coherent ∧ (Turn.afterAll r turns).Knows := by
  induction turns generalizing r with
  | nil => exact ⟨coherent, knows⟩
  | cons t turns ih =>
    have rest (a : Archive) (mem : .elsewhere a ∈ turns) : a.Coherent :=
      shared a (List.mem_cons_of_mem t mem)
    cases t with
    | call c => exact ih (coherent_after coherent knows c) (knows.after c) rest
    | elsewhere a => exact ih (shared a List.mem_cons_self) (knows.of_producers rfl) rest

end Recording
end StudyArchive
