import StudyArchive.Proofs.Archive.Abreast
import StudyArchive.Proofs.Evaluation.Calls
/-
# Evaluations abreast

Two archives that differ in data only take the same evaluations: the same rows are appended for
inputs, and responses go into the same rows (`Archive.Abreast.appendInputs`,
`Archive.Abreast.writeResponse`).  So do two recordings over such archives whose stores know the
same of the producers in question (`Recording.Abreast`).
-/

namespace StudyArchive

open EvaluationLayout

namespace Archive.Abreast

variable {a₀ b₀ a b : Archive} (h : Abreast a₀ b₀ a b)

include h

/-! ## Rows -/

theorem answerPart (root : Path) (s : EvaluationSchema) (r : Response) (i : Nat)
    (part : EvaluationPart) :
    Together (Abreast a₀ b₀) (part.answerPart root s r i) (part.answerPart root s r i) a b := by
  unfold EvaluationPart.answerPart
  cases part.shape? s with
  | none => exact together_pure h
  | some _ =>
    cases part with
    | functions => exact h.setVector ..
    | gradients => exact .ite (fun _ => h.setMatrix ..) fun _ => together_pure h
    | hessians => exact .ite (fun _ => h.setMatrices ..) fun _ => together_pure h
    | metadata => exact .ite (fun _ => together_pure h) fun _ => h.setVector ..
    | _ => exact together_pure h

theorem writeResponse (p : Producer) (s : EvaluationSchema) (r : Response) (i : Nat) :
    Together (Abreast a₀ b₀) (Recording.writeResponse (ofSchema p s) s r i)
      (Recording.writeResponse (ofSchema p s) s r i) a b := by
  rw [EvaluationPart.writeResponse_eq]
  exact .forM h fun part _ _ _ h' => h'.answerPart p.root s r i part

theorem appendPart (root : Path) (s : EvaluationSchema) (x : EvaluationInputs)
    (part : EvaluationPart) :
    Together (Abreast a₀ b₀) (part.appendPart root s x) (part.appendPart root s x) a b := by
  unfold EvaluationPart.appendPart
  cases part.shape? s with
  | none => exact together_pure h
  | some _ =>
    cases part with
    | ids => exact h.appendScalar ..
    | functions | gradients | hessians | metadata =>
      exact (h.reserveRow _).bind fun _ _ _ h' => together_pure h'
    | _ => exact h.appendVector ..

theorem appendInputs (p : Producer) {s : EvaluationSchema} {x : EvaluationInputs} (fit : x.Fit s) :
    Together (Abreast a₀ b₀) (Recording.appendInputs (ofSchema p s) s x.id x.active x.values)
      (Recording.appendInputs (ofSchema p s) s x.id x.active x.values) a b := by
  rw [EvaluationPart.appendInputs_eq p fit]
  exact .forM h fun part _ _ _ h' => h'.appendPart p.root s x part

/-! ## Drift

The comparison counts rows and nothing else, so archives that differ in data only are found to fit
alike. -/

theorem countRows_eq (path : Path) : b.countRows path = a.countRows path := by
  unfold countRows
  rw [h.dims_eq]

/-- Extents alone decide whether evaluations drift. -/
theorem evaluationDrift_eq (l : EvaluationLayout) (s : EvaluationSchema) :
    b.evaluationDrift l s = a.evaluationDrift l s := by
  have first (n : Nat) (rows : List (Path × Option (List Nat))) :
      b.firstDrift n rows = a.firstDrift n rows := by
    induction rows with
    | nil => rfl
    | cons row rows ih => rw [firstDrift, firstDrift, h.contains_eq, h.dims_eq, ih]
  unfold evaluationDrift
  rw [h.countRows_eq]
  exact bind_congr fun n => first n _

end Archive.Abreast

namespace Recording

/-! ## Recordings

What the stores know is asked of the producers in question only; of other producers they may know
different things. -/

/-- Two recordings over archives abreast, whose stores know the same of some producers. -/
structure Abreast (of : Producer → Prop) (a₀ b₀ : Archive) (r t : Recording) : Prop where
  archive : Archive.Abreast a₀ b₀ r.archive t.archive
  selects : ∀ p, of p → t.store.selects p = r.store.selects p
  producers : ∀ p, of p → t.store.producers.get? p = r.store.producers.get? p
  slots : ∀ p id, of p → t.store.slots.get? (p, id) = r.store.slots.get? (p, id)
  layouts : ∀ p record, of p → r.store.producers.get? p = some record →
    record.layout = ofSchema p record.schema

namespace Abreast

variable {of : Producer → Prop} {a₀ b₀ : Archive} {r t : Recording} {p : Producer}
  (h : Abreast of a₀ b₀ r t)

include h

theorem onArchive {α : Type} {act : Archive.Action α}
    (steps : Together (Archive.Abreast a₀ b₀) act act r.archive t.archive) :
    Together (Abreast of a₀ b₀) (onArchive act) (Recording.onArchive act) r t := by
  have there {a b : Archive} (archive : Archive.Abreast a₀ b₀ a b) :
      Abreast of a₀ b₀ { r with archive := a } { t with archive := b } :=
    ⟨archive, h.selects, h.producers, h.slots, h.layouts⟩
  cases steps with
  | ok left right related =>
    refine .ok (by rw [Recording.onArchive, left]) ?_ (there related)
    rw [Recording.onArchive, right]
  | error left right related =>
    refine .error (by rw [Recording.onArchive, left]) ?_ (there related)
    rw [Recording.onArchive, right]

theorem notify (n : StoreNotice) :
    Together (Abreast of a₀ b₀) (notify n) (Recording.notify n) r t :=
  together_modify ⟨h.archive, h.selects, h.producers, h.slots, h.layouts⟩

theorem setProducer {record : ProducerRecord} (layout : record.layout = ofSchema p record.schema) :
    Together (Abreast of a₀ b₀) (setProducer p record) (Recording.setProducer p record) r t := by
  refine together_modify ⟨h.archive, h.selects, fun q own => ?_, h.slots,
    fun q record' own known => ?_⟩
  · simp only [Table.get?_insert, h.producers q own]
  · rcases Table.eq_or_get?_of_insert known with ⟨rfl, rfl⟩ | old
    · exact layout
    · exact h.layouts q record' own old

theorem freeSlot (id : UInt64) :
    Together (Abreast of a₀ b₀) (freeSlot p id) (Recording.freeSlot p id) r t := by
  refine together_modify ⟨h.archive, h.selects, h.producers, fun q id' own => ?_, h.layouts⟩
  simp only [EvaluationStore.abandon, Table.get?_erase, h.slots q id' own]

theorem disable {record : ProducerRecord} (layout : record.layout = ofSchema p record.schema)
    (id : UInt64) (reason : String) :
    Together (Abreast of a₀ b₀) (disable p record id reason)
      (Recording.disable p record id reason) r t := by
  unfold Recording.disable
  refine .ite (fun _ => together_pure h) fun _ => ?_
  exact (h.notify _).bind fun _ _ _ h' => h'.setProducer layout

/-- Inputs of a producer that both stores know are stored alike. -/
theorem storeVariables (own : of p) (x : EvaluationInputs) :
    Together (Abreast of a₀ b₀) (storeVariables p x.id x.active x.values)
      (Recording.storeVariables p x.id x.active x.values) r t := by
  unfold Recording.storeVariables
  refine .get ?_
  simp only [h.selects p own, h.producers p own]
  refine .ite (fun _ => ?_) fun _ => together_pure h
  cases known : r.store.producers.get? p with
  | none => exact together_throw h
  | some record =>
    have layout := h.layouts p record own known
    refine .ite (fun _ => together_pure h) fun _ => ?_
    unfold recordInputs
    cases drift : record.schema.inputDrift? x.active x.values with
    | some reason => exact h.disable layout x.id reason
    | none =>
      refine .check h fun _ ascending => .get ?_
      have fit := EvaluationInputs.fit_of_checks drift (Producer.ascending_of_check ascending)
      simp only [h.archive.evaluationDrift_eq, h.archive.countRows_eq]
      refine .check h fun mismatch _ => ?_
      cases mismatch with
      | some reason => exact h.disable layout x.id reason
      | none =>
        refine .check h fun n _ => ?_
        rw [layout]
        refine (h.onArchive (h.archive.appendInputs p fit)).bind fun _ r' t' h' => ?_
        refine together_modify ⟨h'.archive, h'.selects, h'.producers, fun q id own' => ?_,
          h'.layouts⟩
        simp only [Table.get?_insert, h'.slots q id own']

/-- Responses for a producer that both stores know are stored alike. -/
theorem storeResponse (own : of p) (id : UInt64) (response : Response) :
    Together (Abreast of a₀ b₀) (storeResponse p id response)
      (Recording.storeResponse p id response) r t := by
  unfold Recording.storeResponse
  refine .get ?_
  simp only [h.selects p own, h.producers p own, h.slots p id own]
  refine .ite (fun _ => ?_) fun _ => together_pure h
  cases r.store.slots.get? (p, id) with
  | none => exact together_pure h
  | some i =>
    cases known : r.store.producers.get? p with
    | none => exact together_throw h
    | some record =>
      have layout := h.layouts p record own known
      show Together _ (recordResponse p record id i response)
        (recordResponse p record id i response) r t
      unfold recordResponse
      cases record.schema.responseDrift? response with
      | some reason => exact (h.freeSlot id).bind fun _ _ _ h' => h'.disable layout id reason
      | none =>
        refine .check h fun _ _ => .check h fun _ _ => .check h fun _ _ => ?_
        rw [layout]
        exact (h.freeSlot id).bind fun _ _ _ h' => h'.onArchive (h'.archive.writeResponse p _ _ _)

end Abreast
end Recording
end StudyArchive
