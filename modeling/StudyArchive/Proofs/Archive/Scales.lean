import StudyArchive.Proofs.Archive.Sound
/-
# Scales and what they label

A scale is a vector that lists something for each index of an axis (`Dataset.Lists`).  Making a
vector and writing it all gives a scale (`Archive.ends_writeVector`), and attaching it puts it on
its axis of a dataset (`Archive.ends_attachScale`).
-/

namespace StudyArchive

/-- A vector that lists elements of one type. -/
structure Dataset.Lists (d : Dataset) (e : ElementType) (values : List e.Value) : Prop where
  type : d.type = .scalar e
  dims : d.dims = [values.length]
  cells : ∀ (i : Nat) v, values[i]? = some v → d.cell [i] = e.toDatum v

namespace Dataset

variable {d d' : Dataset} {e : ElementType} {values : List e.Value}

theorem Lists.sameRows (h : d.Lists e values) (same : SameRows d d') : d'.Lists e values where
  type := same.alike.type.trans h.type
  dims := same.dims.trans h.dims
  cells i v at_ := by
    rw [cell_eq_of_row h.dims (same.dims.trans h.dims) (same.rows i) .nil]
    exact h.cells i v at_

theorem exists_write_vector (sound : d.Sound) (type : d.type = .scalar e)
    (dims : d.dims = [values.length]) (operation : String) :
    ∃ d', d.write operation ⟨[0], [values.length]⟩ (values.map e.toDatum) = .ok d' ∧
      d'.Lists e values := by
  have cells : (⟨[0], [values.length]⟩ : Selection).cells =
      (List.range values.length).map ([·]) := by
    rw [Selection.cells_eq_tuples _ rfl]
    simp only [Selection.tuples, List.map_cons, List.map_nil, Nat.zero_add]
    exact List.map_eq_flatMap.symm
  obtain ⟨d', written⟩ : ∃ d', d.write operation ⟨[0], [values.length]⟩ (values.map e.toDatum) =
      .ok d' := by
    refine exists_write_eq_ok (checkSelection_eq_ok_of ?_ ?_ ?_) ?_
    · simp [rank, dims]
    · simp [rank, dims]
    · rw [dims]
      exact .cons (by simp) .nil
    · rw [cells]
      simp
  obtain ⟨alike, same⟩ := alike_of_write written
  refine ⟨d', written, alike.type.trans type, same.trans dims, fun i v at_ => ?_⟩
  refine cell_of_write sound.toChunked (k := i) written ?_ ?_
  · rw [cells, List.getElem?_map, List.getElem?_range (List.getElem?_eq_some_iff.1 at_).1]
    rfl
  · rw [List.getElem?_map, at_]
    rfl

end Dataset

namespace Archive

variable {a : Archive} {path dataset scale : Path} {d e : Dataset} {α : Type}

/-! ## Making vectors -/

theorem ends_createDataset (sound : a.Sound) (path : Path) (type : DataType) (dims : List Nat)
    (extensible : Bool) (hint : Option Nat) (fill : Option Datum) :
    Ends (createDataset path type dims extensible hint fill) a
      (fun _ a' => a'.Sound ∧ ∃ chunkRows, Container.Made a.mounted
        (.new path type dims extensible chunkRows (fill.getD (.zero type))) a'.mounted)
      (fun _ _ => True) := by
  unfold createDataset
  simp only [ends_bind, ends_get]
  generalize (if extensible = true then _ else _) = chunkRows
  refine ends_onContainer.2 ((Container.ends_createDataset sound.ready path type dims extensible
    chunkRows _).mono ?_ fun _ _ _ => trivial)
  rintro id m ⟨made, node⟩
  have kept {q : Path} {id : DatasetId} (h : a.handles.get? q = some id) :
      m.container.tree.nodes.get? q = some (.dataset id) :=
    made.planted.kept (sound.handles q id h)
  split
  · refine ends_modify.2 ⟨⟨made.ready, fun q id' h => ?_⟩, chunkRows, made⟩
    rcases Table.eq_or_get?_of_insert h with ⟨rfl, rfl⟩ | old
    · exact node
    · exact kept old
  · exact ends_pure.2 ⟨⟨made.ready, fun q id' => kept⟩, chunkRows, made⟩

/-- A step that refuses some datasets and makes the others. -/
theorem ends_createEmptyOf {type : DataType} {dims : List Nat} {hint : Option Nat}
    {fill : Option Datum} {good : Unit → Archive → Prop} {bad : StorageError → Archive → Prop}
    (refused : ∀ e, bad e a)
    (made : Ends (createDataset path type dims (dims.head? = some 0) hint fill) a good bad) :
    Ends (createEmptyOf path type dims hint fill) a good bad := by
  have checked : Ends (do
      if dims.tail.contains 0 then
        throw (.shapeMismatch path "create_empty_dataset" "non-zero trailing dimensions"
          (showExtents dims))
      createDataset path type dims (dims.head? = some 0) hint fill) a good bad := by
    simp only
    split
    · exact ends_bind.2 (ends_throw.2 (refused _))
    · exact made
  simp only [createEmptyOf]
  split
  · exact ends_bind.2 (ends_throw.2 (refused _))
  · exact checked

theorem ends_writeVector (sound : a.Sound) (found : a.at? path = some d) {e : ElementType}
    {values : List e.Value} (type : d.type = .scalar e) (dims : d.dims = [values.length]) :
    Ends (writeVector path e values) a
      (fun _ a' => ∃ d', d'.Lists e values ∧ Turned a path d' a') (fun _ _ => True) := by
  have extent : d.dims.head?.getD 0 = values.length := by rw [dims]; rfl
  unfold writeVector
  refine ends_bind.2 (ends_find sound found type (by rw [Dataset.rank, dims]; rfl) ?_)
  intro id node dataset
  obtain ⟨d', written, lists⟩ :=
    Dataset.exists_write_vector (sound.sound_of_at? found) type dims "write_vector"
  simp only [ends_bind, ends_get, dataset, extent, if_true]
  exact (ends_put sound found node type written).mono (fun _ _ put => ⟨d', lists, put.2⟩)
    fun _ _ _ => trivial

/-! ## Attaching scales

The scale is named first and attached then.  Neither changes a cell, so what the scale lists it
goes on to list. -/

section
variable {id scaleId : DatasetId} (looked : a.lookup dataset "attach_scale" = .ok id)
  (looked' : a.lookup scale "attach_scale" = .ok scaleId) (here : a.tree.datasets[id]? = some d)
  (here' : a.tree.datasets[scaleId]? = some e)

include looked looked' here here'

/-- Attaching a scale makes no object and takes none away; another dataset gets the scale. -/
theorem ends_attachScale_ids (ready : a.mounted.Ready) (label : String) (axis : Nat) :
    Ends (attachScale dataset scale label axis) a
      (fun _ a' => a'.tree.nodes = a.tree.nodes ∧ (id ≠ scaleId →
        ∃ d', d.attachScale axis ⟨e.path, label⟩ = .ok d' ∧ a'.tree.datasets[id]? = some d'))
      (fun _ _ => True) := by
  have attaches {m : Mounted} (ready' : m.Ready) (nodes : m.container.tree.nodes = a.tree.nodes)
      {d₁ e₁ : Dataset} (there : m.container.tree.datasets[id]? = some d₁)
      (there' : m.container.tree.datasets[scaleId]? = some e₁) (path : e₁.path = e.path)
      (same : id ≠ scaleId → d₁ = d) :
      Ends (do let _ ← onContainer (Container.attachScale id scaleId label axis))
        { a with mounted := m }
        (fun _ a' => a'.tree.nodes = a.tree.nodes ∧ (id ≠ scaleId →
          ∃ d', d.attachScale axis ⟨e.path, label⟩ = .ok d' ∧ a'.tree.datasets[id]? = some d'))
        (fun _ _ => True) := by
    refine ends_bind.2 (ends_onContainer.2 ((Container.ends_attachScale ready' there there' label
      axis).mono ?_ fun _ _ _ => trivial))
    rintro _ m' ⟨d', attached, turned⟩
    refine ends_pure.2 ⟨turned.tree.nodes.trans nodes, fun differ => ?_⟩
    rw [path, same differ] at attached
    have node : m'.container.tree.nodes.get? d₁.path = some (.dataset id) :=
      turned.tree.nodes ▸ ready'.sound.placed there
    exact ⟨d', attached, (Tree.at?_of_node node).symm.trans turned.tree.here⟩
  unfold attachScale
  simp only [ends_bind, ends_get, looked, looked', ends_liftExcept_ok]
  split
  · refine ends_bind.2 (ends_onContainer.2 ((Container.ends_markScale ready here' label).mono ?_
      fun _ _ _ => trivial))
    rintro _ m turned
    have node := turned.tree.nodes ▸ ready.sound.placed here
    have node' := turned.tree.nodes ▸ ready.sound.placed here'
    obtain ⟨d₁, there, -⟩ := turned.ready.sound.named node
    have there' := (Tree.at?_of_node node').symm.trans turned.tree.here
    refine attaches turned.ready turned.tree.nodes there there' rfl fun differ => ?_
    have apart : d.path ≠ e.path := fun same => differ (ready.sound.eq_of_path here here' same)
    have kept := turned.tree.there apart
    rw [Tree.at?_of_node node, Tree.at?_of_node (ready.sound.placed here), there] at kept
    exact Option.some.inj (kept.trans here)
  · exact attaches ready rfl here here' rfl fun _ => rfl

end

/-- Attaching a scale makes no object and takes none away. -/
theorem nodes_attachScale (sound : a.Sound) (label : String) (axis : Nat) :
    Ends (attachScale dataset scale label axis) a (fun _ a' => a'.tree.nodes = a.tree.nodes)
      (fun _ _ => True) := by
  cases looked : a.lookup dataset "attach_scale" with
  | error _ =>
    unfold attachScale
    simp [looked]
  | ok id =>
    cases looked' : a.lookup scale "attach_scale" with
    | error _ =>
      unfold attachScale
      simp [looked, looked']
    | ok scaleId =>
      exact (ends_attachScale_ids looked looked' (Tree.getElem?_of_lt (sound.lt_of_lookup looked))
        (Tree.getElem?_of_lt (sound.lt_of_lookup looked')) sound.ready label axis).mono
        (fun _ _ => And.left) fun _ _ _ => trivial

theorem ends_attachScale (sound : a.Sound) (found : a.at? dataset = some d)
    (found' : a.at? scale = some e) (apart : dataset ≠ scale) (label : String) (axis : Nat) :
    Ends (attachScale dataset scale label axis) a
      (fun _ a' => ∃ d', d.attachScale axis ⟨scale, label⟩ = .ok d' ∧ a'.at? dataset = some d')
      (fun _ _ => True) := by
  obtain ⟨id, looked, node, -⟩ := sound.lookup_eq_ok found "attach_scale"
  obtain ⟨scaleId, looked', node', -⟩ := sound.lookup_eq_ok found' "attach_scale"
  have here : a.tree.datasets[id]? = some d := (Tree.at?_of_node node).symm.trans found
  have here' : a.tree.datasets[scaleId]? = some e := (Tree.at?_of_node node').symm.trans found'
  have path : d.path = dataset := sound.ready.sound.path_of_at? found
  have path' : e.path = scale := sound.ready.sound.path_of_at? found'
  refine (ends_attachScale_ids looked looked' here here' sound.ready label axis).mono ?_
    fun _ _ _ => trivial
  rintro _ a' ⟨nodes, attaches⟩
  obtain ⟨d', attached, there⟩ := attaches fun same => by
    rw [same, here'] at here
    exact apart (path.symm.trans (Option.some.inj here ▸ path'))
  exact ⟨d', path' ▸ attached, (Tree.at?_of_node (nodes ▸ node)).trans there⟩

end Archive
end StudyArchive
