import StudyArchive.Proofs.Container.Scales
import StudyArchive.Proofs.Evaluation.Creation
/-
# The labels of gradients

When the datasets of a producer are made, the axes of its gradients get scales that list the names
of the functions and the numbers of the derivative variables (`Tree.Labelled`).  Nothing lies in the
places of these scales before they are written (`Archive.Spares`), so they list what the schema says
(`Archive.labels_createEvaluations`); and they do as long as scales keep their data
(`Tree.Labelled.keeps`).
-/

namespace StudyArchive

open EvaluationLayout
open Dataset (SameRows)

/-- The scale of the names of functions that have gradients. -/
def EvaluationLayout.namesOf (root : Path) : Path := scaleOf (gradientsOf root) "resp_descriptors"

/-- The scale of the numbers of derivative variables. -/
def EvaluationLayout.numbersOf (root : Path) : Path :=
  scaleOf (responsesOf root) "derivative_variables"

/-- The first scales on the axes of a producer's gradients: one lists the functions' names, the
other one the variables' numbers, in the order of a schema. -/
structure Tree.Labelled (t : Tree) (root : Path) (s : EvaluationSchema) (r : Response) : Prop where
  gradients : ∃ d, t.at? (gradientsOf root) = some d ∧
    (d.scalesAt 1).head? = some ⟨namesOf root, "resp_descriptors"⟩ ∧
    (d.scalesAt 2).head? = some ⟨numbersOf root, "variables"⟩
  names : ∃ d, t.at? (namesOf root) = some d ∧
    d.Lists .text (Archive.functionLabels r s.gradientIndices)
  numbers : ∃ d, t.at? (numbersOf root) = some d ∧
    d.Lists .uint64 (s.derivatives.map UInt64.ofNat)

/-- Labels stay as long as scales keep their data and stay where they are attached. -/
theorem Tree.Labelled.keeps {t t' : Tree} {root : Path} {s : EvaluationSchema} {r : Response}
    (h : t.Labelled root s r) (keeps : t.KeepsScales t')
    (scales : ∀ q, IsScalePlace root q → ∀ d, t.at? q = some d →
      ∃ d', t'.at? q = some d' ∧ SameRows d d') : t'.Labelled root s r where
  gradients := by
    have first {l l' : List AttachedScale} (front : l <+: l') {s : AttachedScale}
        (head : l.head? = some s) : l'.head? = some s := by
      obtain ⟨more, rfl⟩ := front
      rw [List.head?_append, head, Option.some_or]
    obtain ⟨d, found, names, numbers⟩ := h.gradients
    obtain ⟨d', found', front⟩ := keeps _ d found
    exact ⟨d', found', first (front 1) names, first (front 2) numbers⟩
  names := by
    obtain ⟨d, found, lists⟩ := h.names
    have place : IsScalePlace root (namesOf root) :=
      @isScalePlace_scaleOf_part root .gradients (by decide) _
    obtain ⟨d', found', same⟩ := scales _ place d found
    exact ⟨d', found', lists.sameRows same⟩
  numbers := by
    obtain ⟨d, found, lists⟩ := h.numbers
    obtain ⟨d', found', same⟩ := scales _ (isScalePlace_scaleOf_responses root _) d found
    exact ⟨d', found', lists.sameRows same⟩

namespace Archive

variable {owner : Option Path} {path scale root q : Path} {a a' : Archive} {α β : Type}

/-- What is made later on leaves labels as they are. -/
theorem Raised.labelled (raised : Raised owner a a') (laid : a.LaidOut) (hr : IsProducerRoot root)
    {s : EvaluationSchema} {r : Response} (h : a.tree.Labelled root s r) :
    a'.tree.Labelled root s r := by
  have keeps := (Passes.keepsScales raised laid.sound.ready).last ⟨laid.built_self, .refl _⟩
  exact h.keeps keeps.2 fun q place d found => keeps.1.scales hr place found

/-! ## Steps that leave a place free -/

/-- A step that builds, and puts nothing at a place where nothing is. -/
structure Spares (owner : Option Path) (q : Path) (act : Action α) : Prop where
  builds : Builds owner act
  absent : ∀ a : Archive, a.LaidOut → a.tree.nodes.get? q = none →
    Ends act a (fun _ a' => a'.tree.nodes.get? q = none) (fun _ _ => True)

namespace Spares

theorem pure (v : α) : Spares owner q (Pure.pure v : Action α) :=
  ⟨.pure v, fun _ _ absent => ends_pure.2 absent⟩

theorem bind {act : Action α} {next : α → Action β} (h : Spares owner q act)
    (h' : ∀ v, Spares owner q (next v)) : Spares owner q (act >>= next) where
  builds := h.builds.bind fun v => (h' v).builds
  absent a laid absent := by
    refine ends_bind.2 (((h.builds a laid).and (h.absent a laid absent)).mono ?_
      fun _ _ _ => trivial)
    exact fun v a₁ ⟨raised, absent⟩ => (h' v).absent a₁ (raised.built laid).laidOut absent

theorem forIn {f : β → PUnit → Action (ForInStep PUnit)} {l : List β}
    (h : ∀ x ∈ l, ∀ u, Spares owner q (f x u)) :
    Spares owner q (ForIn.forIn l PUnit.unit f) := by
  induction l with
  | nil => exact pure PUnit.unit
  | cons x l ih =>
    rw [List.forIn_cons]
    refine bind (h x (List.mem_cons_self ..) _) fun step => ?_
    cases step with
    | done u => exact pure u
    | yield u => exact ih fun y mem => h y (List.mem_cons_of_mem x mem)

end Spares

/-- What is made at a path takes no place but this and those above it. -/
theorem absent_of_planted {t t' : Tree} (planted : Tree.Planted t path t')
    (aside : ¬q.segments <+: path.segments) (absent : t.nodes.get? q = none) :
    t'.nodes.get? q = none := by
  have apart : q ≠ path := fun same => aside (same ▸ List.prefix_rfl)
  rcases planted.nodes q apart with same | ⟨-, -, above⟩
  · exact same.trans absent
  · exact absurd (above.trans (List.dropLast_prefix _)) aside

theorem spares_createEmpty {e : ElementType} {dims : List Nat} {fill : Option e.Value}
    (builds : Builds owner (createEmpty path e dims fill))
    (aside : ¬q.segments <+: path.segments) : Spares owner q (createEmpty path e dims fill) where
  builds := builds
  absent a laid absent := by
    refine ends_createEmptyOf (fun _ => trivial)
      ((ends_createDataset laid.sound ..).mono ?_ fun _ _ _ => trivial)
    exact fun _ a' ⟨_, _, made⟩ => absent_of_planted made.planted aside absent

theorem spares_attachScale {dataset : Path} {label : String} {axis : Nat} :
    Spares owner q (attachScale dataset scale label axis) where
  builds := builds_attachScale
  absent _ laid absent := (nodes_attachScale laid.sound label axis).mono
    (fun _ _ nodes => nodes ▸ absent) fun _ _ _ => trivial

theorem ends_writeScale (sound : a.Sound) (absent : a.tree.nodes.get? scale = none)
    {e : ElementType} (values : List e.Value) :
    Ends (writeScale scale e values) a
      (fun _ a' => a'.Sound ∧ Tree.Planted a.tree scale a'.tree ∧
        ∃ d, d.Lists e values ∧ ∀ p, a'.at? p = if p = scale then some d else a.at? p)
      (fun _ _ => True) := by
  have free : ¬a.contains scale = true := by simp [contains, SortedMap.contains, absent]
  unfold writeScale
  simp only [ends_bind, ends_get, if_neg free]
  refine ends_createEmptyOf (fun _ => trivial)
    ((ends_createDataset sound ..).mono ?_ fun _ _ _ => trivial)
  rintro _ a₁ ⟨sound₁, chunkRows, made⟩
  have found : a₁.at? scale = some _ := (made.at_ scale).trans (if_pos rfl)
  refine (ends_writeVector sound₁ found rfl rfl).mono ?_ fun _ _ _ => trivial
  rintro _ a' ⟨d, lists, turned⟩
  refine ⟨turned.sound, ⟨turned.sound.ready.sound, absent, ?_⟩, d, lists, fun p => ?_⟩
  · rw [turned.nodes]
    exact made.planted.nodes
  · rw [turned.at_]
    split
    · rfl
    · next apart => exact (made.at_ p).trans (if_neg apart)

theorem spares_writeScale (hr : IsProducerRoot root) (place : IsScalePlace root scale)
    (aside : ¬q.segments <+: scale.segments) {e : ElementType} {values : List e.Value} :
    Spares (some root) q (writeScale scale e values) where
  builds := builds_writeScale hr place
  absent a laid absent := by
    cases there : a.tree.nodes.get? scale with
    | some node =>
      have taken : a.contains scale = true := by simp [contains, SortedMap.contains, there]
      unfold writeScale
      simpa only [ends_bind, ends_get, if_pos taken, ends_pure] using absent
    | none =>
      exact (ends_writeScale laid.sound there values).mono
        (fun _ _ written => absent_of_planted written.2.1 aside absent) fun _ _ _ => trivial

/-! ## The places of labels

The scales of the gradients lie below the mirror of the producer's group, apart from every other
scale that is made. -/

/-- The place of a scale that labels responses, other than by the names of all functions. -/
def IsLabelPlace (root q : Path) : Prop :=
  ∃ x rest, q.segments = "_scales" :: root.segments ++ "responses" :: x :: rest ∧
    x ≠ "function_descriptors"

theorem segments_namesOf (root : Path) : (namesOf root).segments =
    "_scales" :: root.segments ++ ["responses", "gradients", "resp_descriptors"] := by
  rw [namesOf, scaleOf, Path.segments_join_of_isSegment _ (by decide), Path.segments_scaleMirror,
    gradientsOf, responsesOf, Path.segments_join_of_isSegment _ (by decide),
    Path.segments_join_of_isSegment _ (by decide)]
  simp [Path.scalesName]

theorem segments_numbersOf (root : Path) : (numbersOf root).segments =
    "_scales" :: root.segments ++ ["responses", "derivative_variables"] := by
  rw [numbersOf, scaleOf, Path.segments_join_of_isSegment _ (by decide),
    Path.segments_scaleMirror, responsesOf, Path.segments_join_of_isSegment _ (by decide)]
  simp [Path.scalesName]

theorem isLabelPlace_names (root : Path) : IsLabelPlace root (namesOf root) :=
  ⟨"gradients", ["resp_descriptors"], segments_namesOf root, by decide⟩

theorem isLabelPlace_numbers (root : Path) : IsLabelPlace root (numbersOf root) :=
  ⟨"derivative_variables", [], segments_numbersOf root, by decide⟩

theorem IsLabelPlace.isScalePlace (h : IsLabelPlace root q) : IsScalePlace root q := by
  obtain ⟨x, rest, segments, -⟩ := h
  exact ⟨"responses", x :: rest, segments, by decide⟩

section
variable (hr : IsProducerRoot root) (label : IsLabelPlace root q)

include label

/-- A label is not on the way to a scale of a block of variables. -/
theorem IsLabelPlace.aside_block {part : EvaluationPart} {block : String}
    (within : part.place root.segments = root.segments ++ ["variables", block]) (name : String) :
    ¬q.segments <+: (scaleOf (part.path root) name).segments := by
  obtain ⟨x, rest, segments, -⟩ := label
  have scale : (scaleOf (part.path root) name).segments =
      "_scales" :: root.segments ++ "variables" :: block :: Path.parts name := by
    rw [scaleOf, Path.segments_join, Path.segments_scaleMirror, EvaluationPart.segments_path,
      within]
    simp [Path.scalesName]
  rw [segments, scale]
  simp [List.cons_prefix_cons]

/-- Nor is it on the way to the scale of all functions' names. -/
theorem IsLabelPlace.aside_functions :
    ¬q.segments <+: (scaleOf (responsesOf root) "function_descriptors").segments := by
  obtain ⟨x, rest, segments, ne⟩ := label
  have scale : (scaleOf (responsesOf root) "function_descriptors").segments =
      "_scales" :: root.segments ++ ["responses", "function_descriptors"] := by
    rw [scaleOf, Path.segments_join_of_isSegment _ (by decide), Path.segments_scaleMirror,
      responsesOf, Path.segments_join_of_isSegment _ (by decide)]
    simp [Path.scalesName]
  rw [segments, scale]
  simp [List.cons_prefix_cons, ne]

include hr

/-- The place of a scale is not on the way to a part. -/
theorem IsLabelPlace.aside_part (part : EvaluationPart) :
    ¬q.segments <+: (part.path root).segments :=
  fun front => not_isScalePlace_part hr hr part (label.isScalePlace.of_isPrefix front)

/-! ## Making what comes before -/

theorem spares_part (part : EvaluationPart) {row : List Nat}
    (fill : Option part.element.Value) (column : part = .ids → row = [])
    (fill_eq : (fill.map part.element.toDatum).getD (Datum.zeroOf part.element) = part.fill) :
    Spares (some root) q (createEmpty (part.path root) part.element (0 :: row) fill) :=
  spares_createEmpty (builds_createEmpty_part hr part fill column fill_eq)
    (label.aside_part hr part)

theorem spares_createBlock (part : EvaluationPart) (ne : part ≠ .ids) {name : String}
    (within : part.place root.segments = root.segments ++ ["variables", name])
    (l : EvaluationLayout) (fill : Option part.element.Value)
    (fill_eq : (fill.map part.element.toDatum).getD (Datum.zeroOf part.element) = part.fill)
    (block : VariableBlock α) :
    Spares (some root) q (createBlock l (part.path root) part.element fill block) := by
  have put (name : String) {e : ElementType} {values : List e.Value} :
      Spares (some root) q (putScale (part.path root) name 1 e values) :=
    (spares_writeScale hr (isScalePlace_scaleOf_part ne name)
      (label.aside_block within name)).bind fun _ => spares_attachScale
  unfold createBlock
  split
  · exact .pure _
  · exact (spares_part hr label part fill (fun ids => absurd ids ne) fill_eq).bind fun _ =>
      spares_attachScale.bind fun _ => (put _).bind fun _ => (put _).bind fun _ => put _

end

section
variable {p : Producer} {s : EvaluationSchema} {v : Variables} {r : Response}
  (hr : IsProducerRoot p.root)

include hr

theorem spares_createFunctions (label : IsLabelPlace p.root q) :
    Spares (some p.root) q (createFunctions (ofSchema p s) s r) := by
  unfold createFunctions
  split
  · exact .pure _
  · exact (spares_part hr label .functions (some Binary64.nan) (by simp) rfl).bind fun _ =>
      (spares_part hr label .requests none (by simp) rfl).bind fun _ =>
      (spares_writeScale hr (isScalePlace_scaleOf_responses _ _) label.aside_functions).bind
      fun _ =>
      (Spares.forIn fun _ _ _ => spares_attachScale.bind fun _ => spares_attachScale.bind
        fun _ => .pure _).bind fun _ => .pure _

theorem spares_createValues (label : IsLabelPlace p.root q) : Spares (some p.root) q (do
    createEmpty (ofSchema p s).ids .uint64 [0] none
    createBlock (ofSchema p s) (ofSchema p s).continuous .real (some Binary64.nan) v.continuous
    createBlock (ofSchema p s) (ofSchema p s).integers .int64 none v.integers
    createBlock (ofSchema p s) (ofSchema p s).texts .text none v.texts
    createBlock (ofSchema p s) (ofSchema p s).reals .real (some Binary64.nan) v.reals
    createFunctions (ofSchema p s) s r) :=
  (spares_part hr label .ids none (fun _ => rfl) rfl).bind fun _ =>
    (spares_createBlock hr label .continuous (by decide) rfl _ _ rfl _).bind fun _ =>
    (spares_createBlock hr label .integers (by decide) rfl _ _ rfl _).bind fun _ =>
    (spares_createBlock hr label .texts (by decide) rfl _ _ rfl _).bind fun _ =>
    (spares_createBlock hr label .reals (by decide) rfl _ _ rfl _).bind fun _ =>
    spares_createFunctions hr label

/-- The scale of numbers does not lie below that of names. -/
theorem spares_createDerivatives :
    Spares (some p.root) (namesOf p.root) (createDerivatives (ofSchema p s) s) := by
  have aside : ¬(namesOf p.root).segments <+: (numbersOf p.root).segments := by
    rw [segments_namesOf, segments_numbersOf]
    simp [List.cons_prefix_cons]
  unfold createDerivatives
  rw [EvaluationPart.derivatives_ofSchema]
  cases EvaluationPart.derivatives.shape? s with
  | none => exact .pure _
  | some _ =>
    exact (spares_part hr (isLabelPlace_names _) .derivatives none (by simp) rfl).bind
      fun _ => (spares_writeScale hr (isScalePlace_scaleOf_responses _ _) aside).bind
      fun _ => spares_attachScale.bind fun _ => spares_attachScale

/-! ## Making labels

A scale that was just written lists what it was given, and is on its axis. -/

/-- The scale of numbers lists the derivative variables. -/
theorem numbers_createDerivatives (laid : a.LaidOut)
    (absent : a.tree.nodes.get? (numbersOf p.root) = none)
    (has : EvaluationPart.derivatives.shape? s ≠ none) :
    Ends (createDerivatives (ofSchema p s) s) a
      (fun _ a' => ∃ d, a'.at? (numbersOf p.root) = some d ∧
        d.Lists .uint64 (s.derivatives.map UInt64.ofNat)) (fun _ _ => True) := by
  obtain ⟨shape, has⟩ := Option.ne_none_iff_exists'.1 has
  have part : Spares (some p.root) (numbersOf p.root)
      (createEmpty (EvaluationPart.derivatives.path p.root) .int32 [0, s.derivatives.length]
        none) :=
    spares_part hr (isLabelPlace_numbers _) .derivatives none (by simp) rfl
  have place := (isLabelPlace_numbers p.root).isScalePlace
  unfold createDerivatives
  rw [EvaluationPart.derivatives_ofSchema, has]
  refine ends_bind.2 (((part.builds a laid).and (part.absent a laid absent)).mono ?_
    fun _ _ _ => trivial)
  rintro _ a₁ ⟨raised₁, absent₁⟩
  have laid₁ := (raised₁.built laid).laidOut
  refine ends_bind.2 (((builds_writeScale hr place a₁ laid₁).and
    (ends_writeScale laid₁.sound absent₁ _)).mono ?_ fun _ _ _ => trivial)
  rintro _ a₂ ⟨raised₂, -, -, d, lists, at_⟩
  have laid₂ := (raised₂.built laid₁).laidOut
  have attaches : Builds (some p.root) (do
      attachIds (ofSchema p s) (EvaluationPart.derivatives.path p.root)
      attachScale (EvaluationPart.derivatives.path p.root) (ofSchema p s).derivativeIds
        "variables" 1) := builds_attachScale.bind fun _ => builds_attachScale
  refine (attaches a₂ laid₂).mono (fun _ a₃ raised₃ => ?_) fun _ _ _ => trivial
  obtain ⟨d', found', same⟩ := (raised₃.built laid₂).scales hr place ((at_ _).trans (if_pos rfl))
  exact ⟨d', found', lists.sameRows same⟩

omit hr

/-- Attaching a scale to the dataset at another path. -/
theorem ends_attach {dataset : Path} {d : Dataset} (laid : a.LaidOut)
    (found : a.at? dataset = some d) (direct : ¬IsLinkPlace scale) (apart : dataset ≠ scale)
    (label : String) (axis : Nat) :
    Ends (attachScale dataset scale label axis) a
      (fun _ a' => Built none a a' ∧ a'.tree.nodes = a.tree.nodes ∧
        ∃ d', a'.at? dataset = some d' ∧ (∀ k, k ≠ axis → d'.scalesAt k = d.scalesAt k) ∧
          (d.scalesAt axis = [] → d'.scalesAt axis = [⟨scale, label⟩]))
      (fun _ _ => True) := by
  cases looked : a.lookup scale "attach_scale" with
  | error e =>
    unfold attachScale
    simp only [ends_bind, ends_get, looked, ends_liftExcept]
    exact ⟨fun _ _ => ⟨fun _ eq => (by cases eq), fun _ _ => trivial⟩, fun _ _ => trivial⟩
  | ok id =>
    have node := laid.node_of_lookup direct looked
    obtain ⟨e, there, -⟩ := laid.sound.ready.sound.named node
    have found' : a.at? scale = some e := (Tree.at?_of_node node).trans there
    have builds : Builds none (attachScale dataset scale label axis) := builds_attachScale
    refine ((builds a laid).and ((nodes_attachScale laid.sound label axis).and
      (ends_attachScale laid.sound found found' apart label axis))).mono ?_ fun _ _ _ => trivial
    rintro _ a' ⟨raised, nodes, d', attached, here⟩
    exact ⟨raised.built laid, nodes, d', here, Dataset.scalesAt_of_attachScale attached⟩

include hr

theorem ends_createGradients (laid : a.LaidOut) (row : List Nat)
    (absent : a.tree.nodes.get? (namesOf p.root) = none) :
    Ends (createReals (gradientsOf p.root) row) a
      (fun _ a' => Built (some p.root) a a' ∧ a'.tree.nodes.get? (namesOf p.root) = none ∧
        ∃ d, a'.at? (gradientsOf p.root) = some d ∧ ∀ k, d.scalesAt k = []) (fun _ _ => True) := by
  have part : Spares (some p.root) (namesOf p.root) (createReals (gradientsOf p.root) row) :=
    spares_part hr (isLabelPlace_names _) .gradients (some Binary64.nan) (by simp) rfl
  have made : Ends (createReals (gradientsOf p.root) row) a
      (fun _ a' => ∃ d, a'.at? (gradientsOf p.root) = some d ∧ ∀ k, d.scalesAt k = [])
      (fun _ _ => True) := by
    unfold createReals
    refine ends_createEmptyOf (fun _ => trivial)
      ((ends_createDataset laid.sound ..).mono ?_ fun _ _ _ => trivial)
    rintro _ a' ⟨-, chunkRows, made⟩
    exact ⟨_, (made.at_ _).trans (if_pos rfl), Dataset.scalesAt_new _ _ _ _ _ _⟩
  refine ((part.builds a laid).and ((part.absent a laid absent).and made)).mono ?_
    fun _ _ _ => trivial
  exact fun _ a' ⟨raised, rest⟩ => ⟨raised.built laid, rest⟩

theorem labels_createDerived (laid : a.LaidOut)
    (absent : a.tree.nodes.get? (namesOf p.root) = none) {numbers : Dataset}
    (found : a.at? (numbersOf p.root) = some numbers)
    (lists : numbers.Lists .uint64 (s.derivatives.map UInt64.ofNat)) :
    Ends (createDerived (ofSchema p s) s r s.gradientIndices [2] (gradientsOf p.root)) a
      (fun _ a' => a'.LaidOut ∧ a'.tree.Labelled p.root s r) (fun _ _ => True) := by
  have names := (isLabelPlace_names p.root).isScalePlace
  have numbers := (isLabelPlace_numbers p.root).isScalePlace
  have apart {q : Path} (place : IsScalePlace p.root q) : gradientsOf p.root ≠ q :=
    (place.apart hr).ne hr .gradients
  have segments : (ofSchema p s).ids.segments =
      "_scales" :: (p.root.segments ++ ["evaluation_ids"]) :=
    EvaluationPart.segments_path p.root .ids
  have ids : ¬IsLinkPlace (ofSchema p s).ids := not_isLinkPlace_of_scales segments
  have differs : EvaluationPart.gradients.path p.root ≠ EvaluationPart.ids.path p.root :=
    fun same => absurd (EvaluationPart.path_injective hr hr same).1 (by decide)
  unfold createDerived
  -- First the dataset, whose axes have no scales yet.
  refine ends_bind.2 ((ends_createGradients hr laid _ absent).mono ?_ fun _ _ _ => trivial)
  rintro _ a₁ ⟨built₁, absent₁, d₁, here₁, none₁⟩
  -- The identifiers go to the axis of the rows.
  refine ends_bind.2 ((ends_attach built₁.laidOut here₁ ids differs _ 0).mono ?_
    fun _ _ _ => trivial)
  rintro _ a₂ ⟨built₂, nodes₂, d₂, here₂, others₂, -⟩
  -- The names of the functions are made and go to the axis after it.
  refine ends_bind.2 (ends_bind.2 (((builds_writeScale hr names a₂ built₂.laidOut).and
    (ends_writeScale built₂.laidOut.sound (nodes₂ ▸ absent₁) _)).mono ?_ fun _ _ _ => trivial))
  rintro _ a₃ ⟨raised₃, -, -, e₃, lists₃, at₃⟩
  have built₃ := raised₃.built built₂.laidOut
  have here₃ : a₃.at? (gradientsOf p.root) = some d₂ :=
    (at₃ _).trans ((if_neg (apart names)).trans here₂)
  refine (ends_attach built₃.laidOut here₃ names.not_isLinkPlace (apart names) _ 1).mono ?_
    fun _ _ _ => trivial
  rintro _ a₄ ⟨built₄, -, d₄, here₄, others₄, first₄⟩
  -- The numbers, which were there before, go to the last axis.
  simp only [List.forIn_cons, List.forIn_nil, ends_bind, ends_pure]
  refine (ends_attach built₄.laidOut here₄ numbers.not_isLinkPlace (apart numbers) "variables"
    2).mono ?_ fun _ _ _ => trivial
  rintro _ a₅ ⟨built₅, -, d₅, here₅, others₅, first₅⟩
  -- Attaching keeps the labels themselves, and what the other axes have.
  have kept {q : Path} (place : IsScalePlace p.root q) {d : Dataset} (found : a₃.at? q = some d) :
      ∃ d', a₅.at? q = some d' ∧ SameRows d d' :=
    (built₄.trans built₅).scales hr place found
  refine ⟨built₅.laidOut, ⟨d₅, here₅, ?_, ?_⟩, ?_, ?_⟩
  · rw [others₅ 1 (by decide), first₄ ((others₂ 1 (by decide)).trans (none₁ 1))]
    rfl
  · rw [first₅ ((others₄ 2 (by decide)).trans ((others₂ 2 (by decide)).trans (none₁ 2)))]
    rfl
  · obtain ⟨e₅, found₅, same⟩ := kept names ((at₃ _).trans (if_pos rfl))
    exact ⟨e₅, found₅, lists₃.sameRows same⟩
  · obtain ⟨e₁, found₁, same₁⟩ := built₁.scales hr numbers found
    obtain ⟨e₂, found₂, same₂⟩ := built₂.scales hr numbers found₁
    obtain ⟨e₃, found₃, same₃⟩ := built₃.scales hr numbers found₂
    obtain ⟨e₅, found₅, same₅⟩ := kept numbers found₃
    exact ⟨e₅, found₅, (((lists.sameRows same₁).sameRows same₂).sameRows same₃).sameRows same₅⟩

/-- Where there were no labels, the gradients of a producer are made with theirs. -/
theorem labels_createOptional (laid : a.LaidOut)
    (absent : a.tree.nodes.get? (namesOf p.root) = none) {numbers : Dataset}
    (found : a.at? (numbersOf p.root) = some numbers)
    (lists : numbers.Lists .uint64 (s.derivatives.map UInt64.ofNat))
    (has : EvaluationPart.gradients.shape? s ≠ none) :
    Ends (createOptional (ofSchema p s) s r) a (fun _ a' => a'.tree.Labelled p.root s r)
      (fun _ _ => True) := by
  obtain ⟨shape, has⟩ := Option.ne_none_iff_exists'.1 has
  unfold createOptional
  rw [EvaluationPart.gradients_ofSchema, has]
  refine ends_bind.2 ((labels_createDerived hr laid absent found lists).mono ?_
    fun _ _ _ => trivial)
  rintro _ a₁ ⟨laid₁, labelled⟩
  exact (builds_createHigher hr a₁ laid₁).mono (fun _ _ raised => raised.labelled laid₁ hr labelled)
    fun _ _ _ => trivial

/-- Where nothing is labelled yet, the datasets of a producer are made with the labels of its
gradients. -/
theorem labels_createEvaluations (laid : a.LaidOut)
    (absent : ∀ q, IsScalePlace p.root q → a.tree.nodes.get? q = none)
    (has : EvaluationPart.gradients.shape? s ≠ none) :
    Ends (createEvaluations (ofSchema p s) s v r) a
      (fun _ a' => a'.tree.Labelled p.root s r) (fun _ _ => True) := by
  have derived : EvaluationPart.derivatives.shape? s ≠ none := by
    have both := (Option.ite_none_right_eq_some.1 (Option.ne_none_iff_exists'.1 has).choose_spec).1
    simp [EvaluationPart.shape?, both.1]
  have values {q : Path} (label : IsLabelPlace p.root q) :=
    spares_createValues (s := s) (v := v) (r := r) hr label
  have grouped : createEvaluations (ofSchema p s) s v r = (do
      createEmpty (ofSchema p s).ids .uint64 [0] none
      createBlock (ofSchema p s) (ofSchema p s).continuous .real (some Binary64.nan) v.continuous
      createBlock (ofSchema p s) (ofSchema p s).integers .int64 none v.integers
      createBlock (ofSchema p s) (ofSchema p s).texts .text none v.texts
      createBlock (ofSchema p s) (ofSchema p s).reals .real (some Binary64.nan) v.reals
      createFunctions (ofSchema p s) s r) >>= fun _ =>
        createDerivatives (ofSchema p s) s >>= fun _ => createOptional (ofSchema p s) s r := by
    simp only [createEvaluations, bind_assoc]
  have names := isLabelPlace_names p.root
  have numbers := isLabelPlace_numbers p.root
  rw [grouped]
  refine ends_bind.2 ((((values names).builds a laid).and
    (((values names).absent a laid (absent _ names.isScalePlace)).and
      ((values numbers).absent a laid (absent _ numbers.isScalePlace)))).mono ?_
    fun _ _ _ => trivial)
  rintro _ a₁ ⟨raised₁, free, free'⟩
  have laid₁ := (raised₁.built laid).laidOut
  have flags := spares_createDerivatives (s := s) hr
  refine ends_bind.2 (((flags.builds a₁ laid₁).and ((flags.absent a₁ laid₁ free).and
    (numbers_createDerivatives hr laid₁ free' derived))).mono ?_ fun _ _ _ => trivial)
  rintro _ a₂ ⟨raised₂, free₂, d, found, lists⟩
  exact labels_createOptional hr (raised₂.built laid₁).laidOut free₂ found lists has

end

end Archive
end StudyArchive
