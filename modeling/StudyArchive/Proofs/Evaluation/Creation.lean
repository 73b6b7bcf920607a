import StudyArchive.Proofs.Archive.Scales
import StudyArchive.Proofs.Evaluation.Building
/-
# Steps that build

The steps that make the datasets of a producer, its tables of parameters and the links to sources
are put together from a few: each of them builds, and so do they.
-/

namespace StudyArchive.Archive

open EvaluationLayout

variable {owner : Option Path} {path root : Path} {α β : Type}

/-- A step that builds, whichever way it ends; only a record without a frame keeps the log
behind. -/
def Builds (owner : Option Path) (act : Action α) : Prop :=
  ∀ a : Archive, a.LaidOut → Ends act a (fun _ => Raised owner a)
    (fun e a' => Raised owner a a' ∨ e.isUnencodable ∧ Built owner a a')

namespace Builds

theorem pure (v : α) : Builds owner (Pure.pure v : Action α) :=
  fun _ _ => ends_pure.2 raised_self

theorem throw (e : StorageError) : Builds owner (throw e : Action α) :=
  fun _ _ => ends_throw.2 (.inl raised_self)

theorem bind {act : Action α} {next : α → Action β} (h : Builds owner act)
    (h' : ∀ v, Builds owner (next v)) : Builds owner (act >>= next) := by
  refine fun a laid => ends_bind.2 ((h a laid).mono (fun v a₁ raised => ?_) fun _ _ bad => bad)
  have built := raised.built laid
  refine (h' v a₁ built.laidOut).mono (fun _ _ => raised.trans laid) fun e a₂ bad => ?_
  exact bad.imp (raised.trans laid) (And.imp_right built.trans)

theorem get {next : Archive → Action α} (h : ∀ a, Builds owner (next a)) :
    Builds owner (get >>= next) := fun a laid => ends_bind.2 (ends_get.2 (h a a laid))

theorem forM {f : β → Action PUnit} {l : List β} (h : ∀ x ∈ l, Builds owner (f x)) :
    Builds owner (l.forM f) := by
  induction l with
  | nil => exact pure PUnit.unit
  | cons x l ih =>
    exact bind (h x (List.mem_cons_self ..)) fun _ =>
      ih fun y mem => h y (List.mem_cons_of_mem x mem)

theorem forIn {f : β → PUnit → Action (ForInStep PUnit)} {l : List β}
    (h : ∀ x ∈ l, ∀ u, Builds owner (f x u)) : Builds owner (ForIn.forIn l PUnit.unit f) := by
  induction l with
  | nil => exact pure PUnit.unit
  | cons x l ih =>
    rw [List.forIn_cons]
    refine bind (h x (List.mem_cons_self ..) _) fun step => ?_
    cases step with
    | done u => exact pure u
    | yield u => exact ih fun y mem => h y (List.mem_cons_of_mem x mem)

end Builds

/-! ## Single steps -/

/-- A new dataset: what is remembered of it is where it lies. -/
theorem ends_createDataset_raised {a : Archive} (laid : a.LaidOut) {type : DataType}
    {dims : List Nat} {extensible : Bool} {hint : Option Nat} {fill : Option Datum}
    (clear : Clear path) (plain : type.isPlain)
    (new : ∀ root, IsProducerRoot root → ∀ part : EvaluationPart, part.path root = path →
      owner = some root ∧ extensible = true ∧ type = .scalar part.element ∧
        fill.getD (.zero type) = part.fill ∧ dims.head? = some 0 ∧ (part = .ids → dims.tail = []))
    (scale : ∀ root, IsProducerRoot root → IsScalePlace root path → owner = some root) :
    Ends (createDataset path type dims extensible hint fill) a
      (fun _ a' => Passes (fun b => Built owner a b ∧ ∃ d, b.at? path = some d) a a' ∧
        ∃ d, a'.at? path = some d)
      (fun e a' => a' = a ∨ e.isUnencodable ∧ Built owner a a') := by
  unfold createDataset
  simp only [ends_bind, ends_get]
  generalize (if extensible = true then _ else _) = chunkRows
  have built {m : Mounted}
      (made : Container.Made a.mounted
        (.new path type dims extensible chunkRows (fill.getD (.zero type))) m) :
      Built owner a { a with mounted := m } ∧ ∃ d, m.container.tree.at? path = some d := by
    refine ⟨laid.built_of_made clear made (fun root hr part here => ?_) scale,
      _, (made.at_ path).trans (if_pos rfl)⟩
    obtain ⟨eq, grows, type_eq, fill_eq, empty, column⟩ := new root hr part here
    refine ⟨eq, ⟨grows, type_eq, fill_eq, column⟩, ?_⟩
    simp [Dataset.rows, Dataset.new, empty]
  have proper : (Mutation.createDataset path type dims extensible chunkRows
      (fill.getD (.zero type))).isProper a.tree := plain
  refine ends_onContainer.2 (((Container.ends_createDataset laid.sound.ready path type dims
    extensible chunkRows _).and (ends_map.1 (laid.ends_run proper))).mono ?_ ?_)
  · rintro id m ⟨⟨made, node⟩, record⟩
    obtain ⟨whole, d, here⟩ := built made
    have there : Passes (fun b => Built owner a b ∧ ∃ d, b.at? path = some d) a
        { a with mounted := m } := .single record ⟨whole, d, here⟩
    split
    · exact ends_modify.2 ⟨.step there (.inl rfl) ⟨whole.remembered node, d, here⟩, d, here⟩
    · exact ends_pure.2 ⟨there, d, here⟩
  · rintro e m ⟨made, same⟩
    rcases same with rfl | unencodable
    · exact .inl rfl
    · rcases made with rfl | made
      · exact .inl rfl
      · exact .inr ⟨unencodable, (built made).1⟩

theorem builds_createDataset {type : DataType} {dims : List Nat} {extensible : Bool}
    {hint : Option Nat} {fill : Option Datum} (clear : Clear path) (plain : type.isPlain)
    (new : ∀ root, IsProducerRoot root → ∀ part : EvaluationPart, part.path root = path →
      owner = some root ∧ extensible = true ∧ type = .scalar part.element ∧
        fill.getD (.zero type) = part.fill ∧ dims.head? = some 0 ∧ (part = .ids → dims.tail = []))
    (scale : ∀ root, IsProducerRoot root → IsScalePlace root path → owner = some root) :
    Builds owner (createDataset path type dims extensible hint fill) :=
  fun _ laid => (ends_createDataset_raised laid clear plain new scale).mono
    (fun _ _ there => there.1.mono fun _ => And.left) fun _ a' bad =>
      bad.imp_left fun (same : a' = _) => same ▸ raised_self

theorem builds_of_createDataset {type : DataType} {dims : List Nat} {hint : Option Nat}
    {fill : Option Datum}
    (made : Builds owner (createDataset path type dims (dims.head? = some 0) hint fill)) :
    Builds owner (createEmptyOf path type dims hint fill) :=
  fun a laid => ends_createEmptyOf (fun _ => .inl raised_self) (made a laid)

theorem builds_createEmptyOf {type : DataType} {dims : List Nat} {hint : Option Nat}
    {fill : Option Datum} (apart : Apart path) (plain : type.isPlain)
    (scale : ∀ root, IsProducerRoot root → IsScalePlace root path → owner = some root) :
    Builds owner (createEmptyOf path type dims hint fill) :=
  builds_of_createDataset <| builds_createDataset apart.clear plain
    (fun _ hr part here => absurd here (apart.ne hr part)) scale

theorem builds_createEmpty_part (hr : IsProducerRoot root) (part : EvaluationPart) {row : List Nat}
    (fill : Option part.element.Value) (column : part = .ids → row = [])
    (fill_eq : (fill.map part.element.toDatum).getD (Datum.zeroOf part.element) = part.fill) :
    Builds (some root) (createEmpty (part.path root) part.element (0 :: row) fill) := by
  refine builds_of_createDataset <|
    builds_createDataset (part.clear_path hr) rfl (fun root' hr' part' here => ?_)
      fun root' hr' place => absurd place (not_isScalePlace_part hr hr' part)
  obtain ⟨rfl, rfl⟩ := EvaluationPart.path_injective hr' hr here
  exact ⟨rfl, rfl, rfl, fill_eq, rfl, column⟩

theorem builds_createEmpty_scale (hr : IsProducerRoot root) (place : IsScalePlace root path)
    {e : ElementType} {dims : List Nat} {fill : Option e.Value} :
    Builds (some root) (createEmpty path e dims fill) :=
  builds_createEmptyOf (place.apart hr) rfl fun _ hr' place' =>
    congrArg some (place'.root_eq place hr' hr)

/-- The arrays of a table have room for an element. -/
theorem isPlain_of_build {path : Path} {k : VariableKind} {records : List ParamRecord}
    {table : ParamTable} (built : ParamTable.build path k records = .ok table) :
    (DataType.compound table.fields).isPlain := by
  have room : ParamTable.width records ≠ 0 := Nat.pos_iff_ne_zero.1 (Nat.le_max_right ..)
  obtain ⟨rows, -, same⟩ := exists_of_bind_eq_ok built
  cases same
  have each (f : ParamField) :
      (ParamTable.column (ParamTable.width records) f).length ≠ some 0 := by
    unfold ParamTable.column
    split <;> simp [room]
  simp only [DataType.isPlain, ParamTable.columns, List.all_eq_true, decide_eq_true_eq]
  intro field mem
  split at mem
  · rcases List.mem_cons.1 mem with rfl | mem
    · simp
    · obtain ⟨f, -, rfl⟩ := List.mem_map.1 mem
      exact each f
  · obtain ⟨f, -, rfl⟩ := List.mem_map.1 mem
    exact each f

theorem builds_createCompound {dims : List Nat} {fields : List Field} (apart : Apart path)
    (plain : (DataType.compound fields).isPlain) (unscaled : ∀ root, ¬IsScalePlace root path) :
    Builds owner (createCompound path dims fields) := by
  have made : Builds owner (createEmptyOf path (.compound fields) dims none none) :=
    builds_createEmptyOf apart plain fun root _ place => absurd place (unscaled root)
  simp only [createCompound]
  split
  · exact .bind (.throw _) fun _ => made
  · exact made

section
variable {a b : Archive} (laid : a.LaidOut) (h : Raised owner a b) (apart : Apart path)
  (new : ∀ root, IsProducerRoot root → IsScalePlace root path → a.at? path = none)

include laid h apart new

/-- Putting data into a dataset apart from the parts; if it is a scale, it is new. -/
theorem Raised.ends_put {id : DatasetId} (node : b.tree.nodes.get? path = some (.dataset id))
    (operation : String) (s : Selection) (values : List Datum) :
    Ends (put id operation s values) b (fun _ => Raised owner a)
      (fun e b' => Raised owner a b' ∨ e.isUnencodable ∧ Built owner a b') := by
  have built := h.built laid
  obtain ⟨d, found, -⟩ := built.laidOut.sound.ready.sound.named node
  have here : b.at? path = some d := (Tree.at?_of_node node).trans found
  have known : (Mutation.write id operation s values).isProper b.tree :=
    decide_eq_true (Tree.lt_of_getElem? found)
  refine h.ends_onContainer
    (P := fun m => ∃ d', Container.Turned b.mounted path d' m)
    (fun m ⟨d', turned⟩ => built.turned apart node (built.laidOut.sound.turned turned) new)
    ?_ (built.laidOut.ends_run known)
  refine (Container.ends_write_or built.laidOut.sound.ready node here).mono ?_ ?_
  · exact fun _ m ⟨d', _, turned⟩ => ⟨d', turned⟩
  · exact fun _ m bad => bad.imp_right fun ⟨d', _, turned⟩ => ⟨d', turned⟩

theorem Raised.ends_writeVector {e : ElementType} {values : List e.Value}
    (direct : ¬IsLinkPlace path) :
    Ends (writeVector path e values) b (fun _ => Raised owner a)
      (fun e b' => Raised owner a b' ∨ e.isUnencodable ∧ Built owner a b') := by
  simp only [writeVector, find, ends_bind, ends_get, ends_liftExcept]
  refine ⟨fun id typed => ?_, fun _ _ => .inl h⟩
  obtain ⟨_, ranked, typed⟩ := exists_of_bind_eq_ok typed
  obtain ⟨_, looked, ranked⟩ := exists_of_bind_eq_ok ranked
  obtain ⟨_, -, same⟩ := exists_of_bind_eq_ok ranked
  obtain ⟨_, -, same'⟩ := exists_of_bind_eq_ok typed
  cases same
  cases same'
  have node := (h.built laid).laidOut.node_of_lookup direct looked
  split
  · exact h.ends_put laid apart new node ..
  · exact ends_bind.2 (ends_throw.2 (.inl h))

end

theorem builds_writeRecords {values : List Datum} (apart : Apart path)
    (direct : ¬IsLinkPlace path) (unscaled : ∀ root, ¬IsScalePlace root path) :
    Builds owner (writeRecords path values) := by
  intro a laid
  simp only [writeRecords, ends_bind, ends_get, ends_liftExcept]
  refine ⟨fun id ranked => ?_, fun _ _ => .inl raised_self⟩
  obtain ⟨_, looked, ranked⟩ := exists_of_bind_eq_ok ranked
  obtain ⟨_, -, same⟩ := exists_of_bind_eq_ok ranked
  cases same
  exact raised_self.ends_put laid apart (fun root _ place => absurd place (unscaled root))
    (laid.node_of_lookup direct looked) ..

theorem builds_createLink (target : Path) (apart : Apart path) (link : IsLinkPlace path) :
    Builds owner (createLink path target) := by
  intro a laid
  have proper : (Mutation.createLink path target).isProper a.tree := rfl
  refine raised_self.ends_onContainer
    (P := fun m => m = a.mounted ∨ m.Ready ∧ Tree.Planted a.tree path m.container.tree ∧
      ∀ q, m.container.tree.at? q = a.tree.at? q) ?_ ?_ (laid.ends_run proper)
  · rintro m (rfl | ⟨ready, planted, at_⟩)
    · exact laid.built_self
    · exact laid.built_of_linked apart link ready planted at_
  · exact (Container.ends_createLink laid.sound.ready path target).mono (fun _ _ made => made)
      fun _ _ made => .inr made

/-- Where further steps left the nodes alone, the datasets that were known are known still. -/
theorem LaidOut.lt_of_nodes {a b : Archive} (laid : a.LaidOut) (laid' : b.LaidOut)
    (nodes : b.tree.nodes = a.tree.nodes) {id : DatasetId} (known : id < a.tree.datasets.length) :
    id < b.tree.datasets.length := by
  have node := laid.sound.ready.sound.placed (Tree.getElem?_of_lt known)
  exact laid'.sound.ready.sound.lt_of_node (nodes ▸ node)

/-- To attach a scale of a known dataset to another one is a step further. -/
theorem Raised.ends_attachScale {a b : Archive} (raised : Raised owner a b) (laid : a.LaidOut)
    (nodes : b.tree.nodes = a.tree.nodes) {id scaleId : DatasetId}
    (known : id < a.tree.datasets.length) (known' : scaleId < a.tree.datasets.length)
    (label : String) (axis : Nat) :
    Ends (do let _ ← onContainer (Container.attachScale id scaleId label axis)) b
      (fun _ => Raised owner a)
      (fun e b' => Raised owner a b' ∨ e.isUnencodable ∧ Built owner a b') := by
  have built := raised.built laid
  have ready := built.laidOut.sound.ready
  have still := laid.lt_of_nodes built.laidOut nodes known
  have still' := laid.lt_of_nodes built.laidOut nodes known'
  have here := Tree.getElem?_of_lt still
  have found := (Tree.at?_of_node (ready.sound.placed here)).trans here
  have proper : (Mutation.attachScale id scaleId label axis).isProper b.tree := by
    simp [Mutation.isProper, still, still']
  have record := ends_map.1 (built.laidOut.ends_run proper)
  refine ends_bind.2 ((raised.ends_onContainer
    (P := fun m => ∃ d', (b.dataset id).attachScale axis ⟨(b.dataset scaleId).path, label⟩ =
      .ok d' ∧ Container.Turned b.mounted (b.dataset id).path d' m) ?_
    ((Container.ends_attachScale ready here (Tree.getElem?_of_lt still') label axis).mono
      (fun _ _ good => good) fun _ _ bad => bad.imp (·.2.2) (·.2))
    record).mono (fun _ _ raised => ends_pure.2 raised) fun _ _ bad => bad)
  rintro m ⟨d', attached, turned⟩
  exact built.trans (built.laidOut.built_of_relabelled
    (turned.relabelled found (Dataset.sameRows_of_attachScale attached)))

/-- Attaching a scale, wherever the dataset and the scale lie. -/
theorem builds_attachScale {dataset scale : Path} {label : String} {axis : Nat} :
    Builds owner (attachScale dataset scale label axis) := by
  intro a laid
  unfold attachScale
  simp only [ends_bind, ends_get, ends_liftExcept]
  refine ⟨fun id looked => ⟨fun scaleId looked' => ?_, fun _ _ => .inl raised_self⟩,
    fun _ _ => .inl raised_self⟩
  have known := laid.sound.lt_of_lookup looked
  have known' := laid.sound.lt_of_lookup looked'
  split
  · -- The scale is named first, which leaves the nodes alone.
    have here := Tree.getElem?_of_lt known'
    have found := (Tree.at?_of_node (laid.sound.ready.sound.placed here)).trans here
    have relabelled {m : Mounted} (turned : Container.Turned a.mounted (a.dataset scaleId).path
        ((a.dataset scaleId).markScale label) m) : Container.Relabelled a.mounted m :=
      turned.relabelled found (Dataset.sameRows_markScale _ label)
    have proper : (Mutation.markScale scaleId label).isProper a.tree := decide_eq_true known'
    refine ends_bind.2 (ends_onContainer.2 (((Container.ends_markScale laid.sound.ready here
      label).and (laid.ends_run proper)).mono ?_ ?_))
    · rintro _ m ⟨turned, record⟩
      have named : Raised owner a { a with mounted := m } :=
        .single record (laid.built_of_relabelled (relabelled turned))
      exact named.ends_attachScale laid turned.tree.nodes known known' label axis
    · rintro e m ⟨⟨-, turned⟩, rfl | unencodable⟩
      · exact .inl raised_self
      · exact .inr ⟨unencodable, laid.built_of_relabelled (relabelled turned)⟩
  · exact raised_self.ends_attachScale laid rfl known known' label axis

/-! ## The datasets of a producer -/

section
variable (hr : IsProducerRoot root)

include hr

theorem builds_writeScale {scale : Path} {e : ElementType} {values : List e.Value}
    (place : IsScalePlace root scale) : Builds (some root) (writeScale scale e values) := by
  intro a laid
  unfold writeScale
  refine ends_bind.2 (ends_get.2 ?_)
  cases there : a.contains scale with
  | true => exact ends_pure.2 raised_self
  | false =>
    have absent : a.at? scale = none := Tree.at?_of_absent
      (Option.not_isSome_iff_eq_none.1 (by simpa [contains, SortedMap.contains] using there))
    refine ends_bind.2 ((builds_createEmpty_scale hr place a laid).mono (fun _ b raised => ?_)
      fun _ _ bad => bad)
    exact raised.ends_writeVector laid (place.apart hr) (fun _ _ _ => absent) place.not_isLinkPlace

theorem builds_putScale (part : EvaluationPart) (ne : part ≠ .ids) {label : String} {axis : Nat}
    {e : ElementType} {values : List e.Value} :
    Builds (some root) (putScale (part.path root) label axis e values) :=
  (builds_writeScale hr (isScalePlace_scaleOf_part ne label)).bind fun _ => builds_attachScale

theorem builds_createReals (part : EvaluationPart) (ne : part ≠ .ids)
    (real : part.element = .real) (row : List Nat) :
    Builds (some root) (createReals (part.path root) row) := by
  cases part with
  | continuous | reals | functions | gradients | hessians | metadata =>
    exact builds_createEmpty_part hr _ _ (by simp) rfl
  | _ => first | exact absurd rfl ne | cases real

theorem builds_createBlock (part : EvaluationPart) (ne : part ≠ .ids) (l : EvaluationLayout)
    (fill : Option part.element.Value)
    (fill_eq : (fill.map part.element.toDatum).getD (Datum.zeroOf part.element) = part.fill)
    {α : Type} (block : VariableBlock α) :
    Builds (some root) (createBlock l (part.path root) part.element fill block) := by
  unfold createBlock
  split
  · exact .pure _
  · exact (builds_createEmpty_part hr part fill (fun ids => absurd ids ne) fill_eq).bind fun _ =>
      builds_attachScale.bind fun _ => (builds_putScale hr part ne).bind fun _ =>
      (builds_putScale hr part ne).bind fun _ => builds_putScale hr part ne

theorem builds_createDerived (part : EvaluationPart) (ne : part ≠ .ids)
    (real : part.element = .real) (l : EvaluationLayout) (s : EvaluationSchema) (r : Response)
    (indices axes : List Nat) :
    Builds (some root) (createDerived l s r indices axes (part.path root)) :=
  (builds_createReals hr part ne real _).bind fun _ => builds_attachScale.bind fun _ =>
    (builds_putScale hr part ne).bind fun _ => (Builds.forIn fun _ _ _ =>
    builds_attachScale.bind fun _ => .pure _).bind fun _ => .pure _

end

section
variable {p : Producer} {s : EvaluationSchema} {v : Variables} {r : Response}
  (hr : IsProducerRoot p.root)

include hr

theorem builds_createFunctions :
    Builds (some p.root) (createFunctions (ofSchema p s) s r) := by
  unfold createFunctions
  split
  · exact .pure _
  · exact (builds_createReals hr .functions (by decide) rfl _).bind fun _ =>
      (builds_createEmpty_part hr .requests none (by simp) rfl).bind fun _ =>
      (builds_writeScale hr (isScalePlace_scaleOf_responses _ _)).bind fun _ =>
      (Builds.forIn fun _ _ _ => builds_attachScale.bind fun _ => builds_attachScale.bind
        fun _ => .pure _).bind
      fun _ => .pure _

theorem builds_createDerivatives :
    Builds (some p.root) (createDerivatives (ofSchema p s) s) := by
  unfold createDerivatives
  rw [EvaluationPart.derivatives_ofSchema]
  cases EvaluationPart.derivatives.shape? s with
  | none => exact .pure _
  | some _ =>
    exact (builds_createEmpty_part hr .derivatives none (by simp) rfl).bind
      fun _ => (builds_writeScale hr (isScalePlace_scaleOf_responses _ _)).bind
      fun _ => builds_attachScale.bind fun _ => builds_attachScale

theorem builds_createHigher : Builds (some p.root) (do
    if let some path := (ofSchema p s).hessians then
      createDerived (ofSchema p s) s r s.hessianIndices [2, 3] path
    if let some path := (ofSchema p s).metadata then
      createReals path [s.metadata]
      attachIds (ofSchema p s) path
      putScale path "labels" 1 .text r.metadataLabels) := by
  have hessians := builds_createDerived hr .hessians (by decide) rfl (ofSchema p s) s r
    s.hessianIndices [2, 3]
  have metadata : Builds (some p.root) (do
      createReals (EvaluationPart.metadata.path p.root) [s.metadata]
      attachIds (ofSchema p s) (EvaluationPart.metadata.path p.root)
      putScale (EvaluationPart.metadata.path p.root) "labels" 1 .text r.metadataLabels) :=
    (builds_createReals hr .metadata (by decide) rfl _).bind fun _ =>
      builds_attachScale.bind fun _ => builds_putScale hr .metadata (by decide)
  rw [EvaluationPart.hessians_ofSchema, EvaluationPart.metadata_ofSchema]
  cases EvaluationPart.hessians.shape? s <;> cases EvaluationPart.metadata.shape? s
  · exact .pure _
  · exact metadata
  · exact hessians.bind fun _ => .pure _
  · exact hessians.bind fun _ => metadata

theorem builds_createOptional :
    Builds (some p.root) (createOptional (ofSchema p s) s r) := by
  unfold createOptional
  rw [EvaluationPart.gradients_ofSchema]
  cases EvaluationPart.gradients.shape? s with
  | none => exact builds_createHigher hr
  | some _ =>
    exact (builds_createDerived hr .gradients (by decide) rfl _ s r _ _).bind fun _ =>
      builds_createHigher hr

/-- The steps after the column of identifiers was made. -/
theorem builds_createRest : Builds (some p.root) (do
    createBlock (ofSchema p s) (ofSchema p s).continuous .real (some Binary64.nan) v.continuous
    createBlock (ofSchema p s) (ofSchema p s).integers .int64 none v.integers
    createBlock (ofSchema p s) (ofSchema p s).texts .text none v.texts
    createBlock (ofSchema p s) (ofSchema p s).reals .real (some Binary64.nan) v.reals
    createFunctions (ofSchema p s) s r
    createDerivatives (ofSchema p s) s
    createOptional (ofSchema p s) s r) :=
  (builds_createBlock hr .continuous (by decide) _ _ rfl _).bind fun _ =>
    (builds_createBlock hr .integers (by decide) _ _ rfl _).bind fun _ =>
    (builds_createBlock hr .texts (by decide) _ _ rfl _).bind fun _ =>
    (builds_createBlock hr .reals (by decide) _ _ rfl _).bind fun _ =>
    (builds_createFunctions hr).bind fun _ => (builds_createDerivatives hr).bind fun _ =>
    builds_createOptional hr

/-- The datasets of a producer are made after the column of identifiers. -/
theorem ends_createEvaluations {a : Archive} (laid : a.LaidOut) :
    Ends (createEvaluations (ofSchema p s) s v r) a
      (fun _ a' => Founded p.root a a' ∧ ∃ d, a'.at? (EvaluationPart.ids.path p.root) = some d)
      (fun e a' => Founded p.root a a' ∨ e.isUnencodable ∧ Built (some p.root) a a') := by
  have first : Ends (createEmpty (ofSchema p s).ids .uint64 [0] none) a
      (fun _ a' => Founded p.root a a' ∧ ∃ d, a'.at? (EvaluationPart.ids.path p.root) = some d)
      (fun e a' => a' = a ∨ e.isUnencodable ∧ Built (some p.root) a a') := by
    refine ends_createDataset_raised laid (EvaluationPart.ids.clear_path hr) rfl
      (fun root hr' part here => ?_)
      fun root hr' place => absurd place (not_isScalePlace_part hr hr' .ids)
    have here : part.path root = EvaluationPart.ids.path p.root := here
    obtain ⟨rfl, rfl⟩ := EvaluationPart.path_injective hr' hr here
    exact ⟨rfl, rfl, rfl, rfl, rfl, fun _ => rfl⟩
  refine ends_bind.2 (first.mono ?_ fun e a' bad => bad.imp_left fun (same : a' = a) =>
    same ▸ .refl)
  rintro _ a₁ ⟨founded, d, found⟩
  have built := founded.raised.built laid
  -- The column of identifiers stays while the rest is made.
  have more {a₂ : Archive} (raised : Raised (some p.root) a₁ a₂) : Founded p.root a a₂ := by
    refine founded.trans (raised.mono fun b built' => ⟨built.trans built', ?_⟩)
    obtain ⟨d', found', -⟩ := built'.kept hr found
    exact ⟨d', found'⟩
  refine (builds_createRest hr a₁ built.laidOut).mono (fun _ a₂ raised => ⟨more raised, ?_⟩)
    fun _ _ bad => bad.imp more (And.imp_right built.trans)
  obtain ⟨d', found', -⟩ := (raised.built built.laidOut).kept hr found
  exact ⟨d', found'⟩

theorem builds_writeTable (parameters : VariableParameters) (k : VariableKind) :
    Builds owner (Recording.writeTable ((p.root.join "properties").join "variable_parameters")
      parameters k) := by
  intro a laid
  refine ends_bind.2 (ends_liftExcept.2 ⟨fun table built => ?_, fun _ _ => .inl raised_self⟩)
  have unscaled := not_isScalePlace_parameters hr k.name
  have write : Builds owner (writeRecords
      (((p.root.join "properties").join "variable_parameters").join k.name) table.rows) :=
    builds_writeRecords (apart_parameters hr _) (not_isLinkPlace_parameters hr _) unscaled
  refine Builds.get (fun a => ?_) a laid
  split
  · exact write
  · exact (builds_createCompound (apart_parameters hr _) (isPlain_of_build built)
      unscaled).bind fun _ => write

end

end StudyArchive.Archive
