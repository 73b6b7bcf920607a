import StudyArchive.Proofs.Evaluation.Inputs
import StudyArchive.Proofs.Evaluation.Labels
/-
# The extents of new parts

Making the datasets of a producer gives each part of its schema the extents of the schema's rows,
and none of the others (`Archive.makes_createEvaluations`): so the comparison with the same schema,
when the producer is allocated again, finds no difference (`Archive.LaidOut.drift_eq_none`).  What a
step makes of one part is found along the step (`Archive.Makes`), as what it builds is.

The columns of a block are counted by its labels when the dataset is made, and by its values when
rows are compared, so they must be equally many (`Variables.Even`).
-/

namespace StudyArchive

open EvaluationLayout

/-- A block of variables with a label, a number and a kind for each value. -/
structure VariableBlock.Even {α : Type} (b : VariableBlock α) : Prop where
  labels : b.labels.length = b.values.length
  ids : b.ids.length = b.values.length
  kinds : b.kinds.length = b.values.length

theorem VariableBlock.even_ofList {α : Type} (l : List (Variable α)) :
    (VariableBlock.ofList l).Even := by
  constructor <;> simp [ofList]

/-- Variables whose blocks are even. -/
structure Variables.Even (v : Variables) : Prop where
  continuous : v.continuous.Even
  integers : v.integers.Even
  texts : v.texts.Even
  reals : v.reals.Even

namespace Archive

variable {root : Path} {q part : EvaluationPart} {row row' : Option (List Nat)} {α β : Type}

/-- The extents of a part below a producer's group, if it is there. -/
def extents (a : Archive) (root : Path) (q : EvaluationPart) : Option (List Nat) :=
  (a.at? (q.path root)).map Dataset.dims

/-- A step that builds and, if a part is not there, makes it for rows of these extents, or not. -/
structure Makes (root : Path) (q : EvaluationPart) (row : Option (List Nat)) (act : Action α) :
    Prop where
  builds : Builds (some root) act
  extents : ∀ a : Archive, a.LaidOut → Ends act a
    (fun _ a' => a'.extents root q = (a.extents root q).or (row.map (0 :: ·))) (fun _ _ => True)

namespace Makes

theorem pure (v : α) : Makes root q none (Pure.pure v : Action α) :=
  ⟨.pure v, fun _ _ => ends_pure.2 (Option.or_none ..).symm⟩

theorem bind {act : Action α} {next : α → Action β} (h : Makes root q row act)
    (h' : ∀ v, Makes root q row' (next v)) : Makes root q (row.or row') (act >>= next) where
  builds := h.builds.bind fun v => (h' v).builds
  extents a laid := by
    refine ends_bind.2 (((h.builds a laid).and (h.extents a laid)).mono ?_ fun _ _ _ => trivial)
    rintro v a₁ ⟨raised, first⟩
    refine ((h' v).extents a₁ (raised.built laid).laidOut).mono (fun _ a₂ second => ?_)
      fun _ _ _ => trivial
    rw [second, first, Option.or_assoc]
    cases row <;> rfl

theorem of_eq {act : Action α} (h : Makes root q row act) (same : row = row') :
    Makes root q row' act := same ▸ h

/-- Steps that do not make the part, one after the other. -/
theorem then_none {act : Action α} {next : α → Action β} (h : Makes root q row act)
    (h' : ∀ v, Makes root q none (next v)) : Makes root q row (act >>= next) :=
  (h.bind h').of_eq (Option.or_none ..)

theorem forIn {f : β → PUnit → Action (ForInStep PUnit)} {l : List β}
    (h : ∀ x ∈ l, ∀ u, Makes root q none (f x u)) :
    Makes root q none (ForIn.forIn l PUnit.unit f) := by
  induction l with
  | nil => exact pure PUnit.unit
  | cons x l ih =>
    rw [List.forIn_cons]
    refine (h x (List.mem_cons_self ..) _).bind fun step => ?_
    cases step with
    | done u => exact pure u
    | yield u => exact ih fun y mem => h y (List.mem_cons_of_mem x mem)

theorem optional {s : EvaluationSchema} {act : Action Unit}
    (h : ∀ row, part.shape? s = some row → Makes root q (if q = part then some row else none) act) :
    Makes root q (if q = part then part.shape? s else none)
      (if (part.shape? s).isSome then act else Pure.pure ()) := by
  cases has : part.shape? s with
  | none =>
    refine (pure _).of_eq ?_
    split <;> rfl
  | some row => exact h row has

end Makes

/-! ## Single steps -/

section
variable (hr : IsProducerRoot root)

include hr

theorem makes_attachScale {dataset scale : Path} {label : String} {axis : Nat} :
    Makes root q none (attachScale dataset scale label axis) where
  builds := builds_attachScale
  extents a laid := by
    have builds : Builds none (attachScale dataset scale label axis) := builds_attachScale
    refine (builds a laid).mono (fun _ a' raised => ?_) fun _ _ _ => trivial
    have built := raised.built laid
    rw [Option.map_none, Option.or_none]
    unfold extents
    cases found' : a'.at? (q.path root) with
    | none =>
      cases found : a.at? (q.path root) with
      | none => rfl
      | some d =>
        obtain ⟨d', there, -⟩ := built.kept hr found
        cases found'.symm.trans there
    | some d' =>
      rcases built.made hr found' with ⟨d, found⟩ | ⟨new, -⟩
      · obtain ⟨d'', there, same⟩ := built.kept hr found
        cases found'.symm.trans there
        rw [found, Option.map_some, Option.map_some, same.dims]
      · cases new

theorem makes_writeScale {scale : Path} (place : IsScalePlace root scale) {e : ElementType}
    {values : List e.Value} : Makes root q none (writeScale scale e values) where
  builds := builds_writeScale hr place
  extents a laid := by
    rw [Option.map_none]
    simp only [Option.or_none]
    cases there : a.tree.nodes.get? scale with
    | some node =>
      have taken : a.contains scale = true := by simp [contains, SortedMap.contains, there]
      unfold writeScale
      simp only [ends_bind, ends_get, if_pos taken, ends_pure]
    | none =>
      refine (ends_writeScale laid.sound there values).mono (fun _ a' written => ?_)
        fun _ _ _ => trivial
      obtain ⟨-, -, d, -, at_⟩ := written
      have apart : q.path root ≠ scale := (place.apart hr).ne hr q
      rw [extents, extents, at_, if_neg apart]

/-- A new part has no rows yet. -/
theorem makes_part (part : EvaluationPart) {row : List Nat} (fill : Option part.element.Value)
    (column : part = .ids → row = [])
    (fill_eq : (fill.map part.element.toDatum).getD (Datum.zeroOf part.element) = part.fill) :
    Makes root q (if q = part then some row else none)
      (createEmpty (part.path root) part.element (0 :: row) fill) where
  builds := builds_createEmpty_part hr part fill column fill_eq
  extents a laid := by
    refine ends_createEmptyOf (fun _ => trivial)
      ((ends_createDataset laid.sound ..).mono ?_ fun _ _ _ => trivial)
    rintro _ a' ⟨-, chunkRows, made⟩
    unfold extents
    by_cases own : q = part
    · subst own
      have at_ : a'.at? (q.path root) = some _ := (made.at_ _).trans (if_pos rfl)
      rw [if_pos rfl, at_, show a.at? (q.path root) = none from
        Tree.at?_of_absent made.planted.absent]
      rfl
    · have apart : q.path root ≠ part.path root :=
        fun same => own (EvaluationPart.path_injective hr hr same).1
      have at_ : a'.at? (q.path root) = a.at? (q.path root) :=
        (made.at_ _).trans (if_neg apart)
      rw [if_neg own, at_, Option.map_none, Option.or_none]

/-! ## Blocks and groups of parts

The parts of a schema are made block by block, so each lemma says for one group of parts which of
them it makes. -/

theorem makes_putScale (part : EvaluationPart) (ne : part ≠ .ids) {label : String} {axis : Nat}
    {e : ElementType} {values : List e.Value} :
    Makes root q none (putScale (part.path root) label axis e values) :=
  (makes_writeScale hr (isScalePlace_scaleOf_part ne label)).bind fun _ => makes_attachScale hr

theorem makes_createBlock (part : EvaluationPart) (ne : part ≠ .ids) (l : EvaluationLayout)
    (fill : Option part.element.Value)
    (fill_eq : (fill.map part.element.toDatum).getD (Datum.zeroOf part.element) = part.fill)
    (block : VariableBlock α) :
    Makes root q (if q = part then rowOf block.labels.length else none)
      (createBlock l (part.path root) part.element fill block) := by
  unfold createBlock
  by_cases empty : block.labels.isEmpty = true
  · rw [if_pos empty]
    refine (Makes.pure _).of_eq ?_
    rw [List.isEmpty_iff.1 empty]
    simp [rowOf]
  · rw [if_neg empty]
    have columns : block.labels.length ≠ 0 := by simpa using empty
    refine Makes.of_eq ((makes_part hr part fill (fun ids => absurd ids ne) fill_eq).then_none
      fun _ => (makes_attachScale hr).bind fun _ => (makes_putScale hr part ne).bind fun _ =>
      (makes_putScale hr part ne).bind fun _ => makes_putScale hr part ne) ?_
    rw [rowOf, if_neg columns]

theorem makes_createReals (part : EvaluationPart) (ne : part ≠ .ids)
    (real : part.element = .real) (row : List Nat) :
    Makes root q (if q = part then some row else none) (createReals (part.path root) row) := by
  cases part with
  | continuous | reals | functions | gradients | hessians | metadata =>
    exact makes_part hr _ _ (by simp) rfl
  | _ => first | exact absurd rfl ne | cases real

theorem makes_createDerived (part : EvaluationPart) (ne : part ≠ .ids)
    (real : part.element = .real) (l : EvaluationLayout) (s : EvaluationSchema) (r : Response)
    (indices axes : List Nat) :
    Makes root q
      (if q = part then some (indices.length :: axes.map fun _ => s.derivatives.length) else none)
      (createDerived l s r indices axes (part.path root)) :=
  (makes_createReals hr part ne real _).then_none fun _ => (makes_attachScale hr).bind fun _ =>
    (makes_putScale hr part ne).bind fun _ => (Makes.forIn fun _ _ _ =>
    (makes_attachScale hr).bind fun _ => .pure _).bind fun _ => .pure _

end

section
variable {p : Producer} {s : EvaluationSchema} {v : Variables} {r : Response}
  (hr : IsProducerRoot p.root)

include hr

theorem makes_createFunctions :
    Makes p.root q (if q = .functions ∨ q = .requests then rowOf s.functions else none)
      (createFunctions (ofSchema p s) s r) := by
  unfold createFunctions
  by_cases none : s.functions = 0
  · rw [if_pos none]
    refine (Makes.pure _).of_eq ?_
    simp [rowOf, none]
  · rw [if_neg none]
    refine Makes.of_eq ((makes_createReals hr .functions (by decide) rfl _).bind fun _ =>
      (makes_part hr .requests Option.none (by simp) rfl).then_none fun _ =>
      (makes_writeScale hr (isScalePlace_scaleOf_responses _ _)).bind fun _ =>
      (Makes.forIn fun _ _ _ => (makes_attachScale hr).bind fun _ => (makes_attachScale hr).bind
        fun _ => .pure _).bind fun _ => .pure _) ?_
    rw [rowOf, if_neg none]
    cases q <;> rfl

theorem makes_createDerivatives :
    Makes p.root q (if q = .derivatives then q.shape? s else none)
      (createDerivatives (ofSchema p s) s) := by
  unfold createDerivatives
  rw [EvaluationPart.derivatives_ofSchema]
  cases has : EvaluationPart.derivatives.shape? s with
  | none =>
    refine (Makes.pure _).of_eq ?_
    split
    · next own => rw [own, has]
    · rfl
  | some shape =>
    refine Makes.of_eq ((makes_part hr .derivatives none (by simp) rfl).then_none fun _ =>
      (makes_writeScale hr (isScalePlace_scaleOf_responses _ _)).bind fun _ =>
      (makes_attachScale hr).bind fun _ => makes_attachScale hr) ?_
    split
    · next own =>
      rw [own, has]
      exact (Option.ite_none_right_eq_some.1 has).2
    · rfl

theorem makes_createMetadata {row : List Nat}
    (has : EvaluationPart.metadata.shape? s = some row) :
    Makes p.root q (if q = .metadata then some row else none) (do
      createReals (EvaluationPart.metadata.path p.root) [s.metadata]
      attachIds (ofSchema p s) (EvaluationPart.metadata.path p.root)
      putScale (EvaluationPart.metadata.path p.root) "labels" 1 .text r.metadataLabels) := by
  rw [EvaluationPart.eq_of_rowOf has]
  exact (makes_createReals hr .metadata (by decide) rfl _).then_none fun _ =>
    (makes_attachScale hr).bind fun _ => makes_putScale hr .metadata (by decide)

theorem makes_createOptional :
    Makes p.root q (if q ∈ [.gradients, .hessians, .metadata] then q.shape? s else none)
      (createOptional (ofSchema p s) s r) := by
  have gradients : ∀ row, EvaluationPart.gradients.shape? s = some row →
      Makes p.root q (if q = .gradients then some row else none)
        (createDerived (ofSchema p s) s r s.gradientIndices [2]
          (EvaluationPart.gradients.path p.root)) := by
    intro row has
    rw [← (Option.ite_none_right_eq_some.1 has).2]
    exact makes_createDerived hr .gradients (by decide) rfl (ofSchema p s) s r
      s.gradientIndices [2]
  have hessians : ∀ row, EvaluationPart.hessians.shape? s = some row →
      Makes p.root q (if q = .hessians then some row else none)
        (createDerived (ofSchema p s) s r s.hessianIndices [2, 3]
          (EvaluationPart.hessians.path p.root)) := by
    intro row has
    rw [← (Option.ite_none_right_eq_some.1 has).2]
    exact makes_createDerived hr .hessians (by decide) rfl (ofSchema p s) s r
      s.hessianIndices [2, 3]
  have each := (Makes.optional gradients).bind fun _ => (Makes.optional hessians).bind fun _ =>
    Makes.optional (s := s) fun _ => makes_createMetadata (r := r) hr
  have rows : (if q ∈ [EvaluationPart.gradients, .hessians, .metadata] then q.shape? s else none) =
      (if q = .gradients then EvaluationPart.gradients.shape? s else none).or
        ((if q = .hessians then EvaluationPart.hessians.shape? s else none).or
          (if q = .metadata then EvaluationPart.metadata.shape? s else none)) := by
    cases q <;> simp
  rw [rows]
  refine cast (congrArg (Makes p.root q _) ?_) each
  unfold createOptional
  rw [EvaluationPart.gradients_ofSchema, EvaluationPart.hessians_ofSchema,
    EvaluationPart.metadata_ofSchema]
  cases EvaluationPart.gradients.shape? s <;> cases EvaluationPart.hessians.shape? s <;>
    cases EvaluationPart.metadata.shape? s <;> rfl

/-- The datasets of a producer are made with the extents of the schema, without rows. -/
theorem makes_createEvaluations (counts : s.variableCounts = v.counts) (even : v.Even) :
    Makes p.root q (q.shape? s) (createEvaluations (ofSchema p s) s v r) := by
  refine Makes.of_eq ((makes_part hr .ids none (fun _ => rfl) rfl).bind fun _ =>
    (makes_createBlock hr .continuous (by decide) _ _ rfl _).bind fun _ =>
    (makes_createBlock hr .integers (by decide) _ _ rfl _).bind fun _ =>
    (makes_createBlock hr .texts (by decide) _ _ rfl _).bind fun _ =>
    (makes_createBlock hr .reals (by decide) _ _ rfl _).bind fun _ =>
    (makes_createFunctions hr).bind fun _ => (makes_createDerivatives hr).bind fun _ =>
    makes_createOptional hr) ?_
  rw [even.continuous.labels, even.integers.labels, even.texts.labels, even.reals.labels]
  cases q <;> simp [EvaluationPart.shape?, counts, Variables.counts, VariableBlock.length]

end

/-! ## Comparing -/

variable {a : Archive} {p : Producer} {s : EvaluationSchema} {n : Nat}

/-- Where the parts have the extents of a schema, no drift is found. -/
theorem LaidOut.drift_eq_none (laid : a.LaidOut) (hr : IsProducerRoot p.root)
    (four : s.variableCounts.length = 4)
    (fit : ∀ part : EvaluationPart, a.extents p.root part = (part.shape? s).map (n :: ·)) :
    a.evaluationDrift (ofSchema p s) s = .ok none := by
  obtain ⟨d, found, dims⟩ := Option.map_eq_some_iff.1 (fit .ids)
  have counted : a.countRows (ofSchema p s).ids = .ok n := laid.sound.countRows_eq_ok found dims
  unfold evaluationDrift
  rw [counted, EvaluationPart.rowShapes_ofSchema p four]
  exact (laid.firstDrift_eq_none_iff hr).2 fun part _ => fit part

end Archive
end StudyArchive
