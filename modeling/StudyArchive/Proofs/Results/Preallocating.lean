import StudyArchive.Proofs.Results.Parts
/-
# Room for results

Room that is kept for a value is made as the value is stored, but for the data, and then filled part
by part.
-/

namespace StudyArchive

open Archive Dataset

/-! ## Datasets that stay

A dataset stands if its path denotes it and it goes on to; no change of a container ends that. -/

/-- A tree in which a dataset stands at a path, one that was made as another one. -/
structure Tree.Stands (path : Path) (id : DatasetId) (d₀ : Dataset) (t : Tree) : Prop where
  node : t.nodes.get? path = some (.dataset id)
  known : id < t.datasets.length
  alike : Dataset.Alike d₀ (t.dataset id)

theorem Archive.robust_stands {path : Path} {id : DatasetId} {d₀ : Dataset} :
    Robust fun a => a.Transparent ∧ a.tree.Stands path id d₀ := by
  refine robust_of_tree fun t t' stands keeps retains => ?_
  obtain ⟨known, alike⟩ := retains id stands.known
  exact ⟨keeps path _ stands.node (fun _ => by simp), known, stands.alike.trans alike⟩

/-- A dataset that was made stands as it was made. -/
theorem Archive.ends_createDataset_stands {a : Archive} {path : Path} (coherent : a.Coherent)
    {type : DataType} {dims : List Nat} {extensible : Bool} {hint : Option Nat}
    {fill : Option Datum} :
    Ends (createDataset path type dims extensible hint fill) a
      (fun _ a' => a'.Coherent ∧ ∃ id chunkRows,
        a'.dataset id = .new path type dims extensible chunkRows (fill.getD (.zero type)) ∧
        a'.tree.Stands path id (a'.dataset id))
      (fun _ _ => True) := by
  refine (ends_createDataset_made coherent).imp ?_
  rintro _ a' ⟨coherent', chunkRows, made⟩
  obtain ⟨id, node, there⟩ := Tree.at?_eq_some.1 ((made.at_ path).trans (if_pos rfl))
  exact ⟨coherent', id, chunkRows, Tree.dataset_of_getElem? there, node,
    Tree.lt_of_getElem? there, .refl _⟩

namespace Shelf

variable {a b : Archive} {path : Path} {e : ElementType} {r : MethodRun}

/-! ## Side by side -/

section
variable (h : Coupled a b)

include h

theorem alike_putVector (path : Path) (values : List e.Value) :
    Together Coupled (putVector path e values) (putVector path e values) a b :=
  (h.createFixed ..).bind fun _ _ _ h' =>
    .ite (fun _ => together_pure h') fun _ => h'.writeVector ..

theorem alike_putMatrix (path : Path) (m : Matrix e.Value) (transpose : Bool) :
    Together Coupled (putMatrix path e m transpose) (putMatrix path e m transpose) a b :=
  (h.createFixed ..).bind fun _ _ _ h' =>
    .ite (fun _ => together_pure h') fun _ => h'.writeMatrix ..

theorem alike_putScale (result : Path) (s : DimScale) :
    Together Coupled (putScale r result s) (putScale r result s) a b := by
  unfold putScale
  refine .get ?_
  rw [h.contains_eq]
  refine .ite (fun _ => h.attachScale ..) fun _ => ?_
  cases s.data with
  | vector e values => exact (alike_putVector h ..).bind fun _ _ _ h' => h'.attachScale ..
  | matrix e m => exact (alike_putMatrix h ..).bind fun _ _ _ h' => h'.attachScale ..

/-- A result is labelled and described alike, whatever it holds. -/
theorem alike_annotate (path : Path) (scales : List DimScale) (attributes : List Attribute) :
    Together Coupled (annotate r path scales attributes)
      (annotate r path scales attributes) a b :=
  (Together.forM h fun _ _ _ _ h' => alike_putScale h' ..).bind fun _ _ _ h' =>
    .forM h' fun _ _ _ _ h'' => h''.setAttribute ..

end

/-! ## What lasts -/

section
variable {I : Archive → Prop} (robust : Robust I)

include robust

theorem preserves_putVector {values : List e.Value} : Preserves I (putVector path e values) :=
  .bind ((Call.createFixed path e _ none).preserves_run robust) fun _ =>
    .ite (.pure _) ((TypedWrite.writeVector path e values).preserves_run robust)

theorem preserves_putMatrix {m : Matrix e.Value} {transpose : Bool} :
    Preserves I (putMatrix path e m transpose) :=
  .bind ((Call.createFixed path e _ none).preserves_run robust) fun _ =>
    .ite (.pure _) ((TypedWrite.writeMatrix path e m transpose).preserves_run robust)

theorem preserves_annotate {scales : List DimScale} {attributes : List Attribute} :
    Preserves I (annotate r path scales attributes) := by
  have attaches (s : DimScale) :
      Preserves I (attachScale path (s.path r path) s.label s.axis) :=
    (Call.attachScale ..).preserves_run robust
  refine .bind (.forM fun s => ?_) fun _ =>
    .forM fun a => (Call.setAttribute path a.label a.value).preserves_run robust
  unfold putScale
  refine .get fun _ => .ite (attaches s) ?_
  cases s.data with
  | vector e values => exact .bind (preserves_putVector robust) fun _ => attaches s
  | matrix e m => exact .bind (preserves_putMatrix robust) fun _ => attaches s

end

/-! ## Values -/

/-- A step that writes a value over a dataset of its size. -/
structure Writes (path : Path) (data : ScaleData) (write : Archive.Action Unit) : Prop where
  keeps : ∀ b, Preserves (AlikeBelow · b) write
  lasts : ∀ I, Robust I → Preserves I write
  framed : 0 ∉ data.dims.tail → ∀ (b : Archive) id, b.Coherent →
    b.tree.denoted? path = some id → Ends write b
      (fun _ _ => ∀ d, data.HeldBy d → d.path = (b.dataset id).path →
        d.type = (b.dataset id).type → d.RowsHaveFrames)
      (fun _ _ => True)

theorem writes_vector (path : Path) (e : ElementType) (values : List e.Value) :
    Writes path (.vector e values)
      (do unless values.isEmpty do writeVector path e values) where
  keeps _ := .ite (.pure _) keeps_writeVector
  lasts _ robust := .ite (.pure _) ((TypedWrite.writeVector path e values).preserves_run robust)
  framed _ b id coherent denotes := by
    refine ends_ite.2 ⟨fun empty => ends_pure.2 ?_, fun _ => ?_⟩
    · intro d held _ _ i low
      obtain rfl := List.isEmpty_iff.1 empty
      have none : d.rows = 0 := by rw [rows, held.dims]; rfl
      omega
    · refine (ends_writeVector_framed coherent denotes values).imp ?_
      intro _ _ framed d held own type i low
      have held : d.Holds e [values.length] (values.map e.toDatum) := held
      have extent : d.rows = values.length := by rw [rows, held.dims]; rfl
      have at_ := List.getElem?_eq_getElem (extent ▸ low)
      have selection : d.partSelection true i = ⟨[i], [1]⟩ := rowSelection_eq held.dims i
      rw [(held.cells_element at_).1, selection]
      have framed := framed.congr own type
      rw [← List.length_map (f := e.toDatum)] at framed
      exact framed.element (by rw [List.getElem?_map, at_, Option.map_some])

theorem writes_matrix (path : Path) (e : ElementType) (m : Matrix e.Value) :
    Writes path (.matrix e m) (do unless m.isEmpty do writeMatrix path e m false) where
  keeps _ := .ite (.pure _) keeps_writeMatrix
  lasts _ robust :=
    .ite (.pure _) ((TypedWrite.writeMatrix path e m false).preserves_run robust)
  framed full b id coherent denotes := by
    refine ends_ite.2 ⟨fun empty => ends_pure.2 ?_, fun _ => ?_⟩
    · intro d held _ _ i low
      have size : m.cols * m.rows = 0 := by
        rw [← m.size_data]
        exact Array.isEmpty_iff_size_eq_zero.1 empty
      have columns : m.cols ≠ 0 := fun none => full (none ▸ List.mem_cons_self)
      have extent : d.rows = m.rows := by rw [rows, held.dims]; rfl
      have none := (Nat.mul_eq_zero.1 size).resolve_left columns
      omega
    · refine (ends_writeMatrix_framed coherent denotes m).imp ?_
      intro _ _ framed d held own type i low
      have held : d.Holds e [m.rows, m.cols] (m.toRowMajor.map e.toDatum) := held
      have extent : d.rows = m.rows := by rw [rows, held.dims]; rfl
      have at_ := List.getElem?_eq_getElem ((extent.trans m.length_rowList.symm) ▸ low)
      have selection : d.partSelection true i = ⟨[i, 0], [1, m.cols]⟩ :=
        rowSelection_eq held.dims i
      have part : (if true = true then m.rowList else m.columnList)[i]? = _ := at_
      rw [(held.cells_part part).1, selection]
      exact (framed i _ at_).congr own type

/-- A vector or matrix is stored by making a dataset of its size and writing it over that. -/
theorem exists_write {v : ResultValue} {data : ScaleData} (is : ScaleData.ofValue? v = some data)
    (path : Path) : ∃ write, Writes path data write ∧
      putValue path false v =
        (do createFixed path data.element data.dims none; write) := by
  cases v with
  | real v | int v | text v => cases is
  | reals l | ints l | texts l =>
    cases is
    exact ⟨_, writes_vector path _ _, rfl⟩
  | realMatrix m | intMatrix m | textMatrix m =>
    cases is
    exact ⟨_, writes_matrix path _ _, rfl⟩

/-! ## Room for a value

The dataset that is reserved has the shape of the value, and its cells are those of the parts. -/

/-- What fills room can be stored, in as many bytes as the zero. -/
theorem filling_spec (e : ElementType) :
    ((filling e).getD (.zero (.scalar e))).conforms (.scalar e) ∧
      ∃ filled, ((filling e).getD (.zero (.scalar e))).encode (.scalar e) = .ok filled ∧
        ∀ bytes, (Datum.zero (.scalar e)).encode (.scalar e) = .ok bytes →
          filled.length = bytes.length := by
  cases e with
  | real =>
    refine ⟨rfl, _, rfl, fun bytes encoded => ?_⟩
    cases encoded
    rw [Bytes.length_ofNat, Bytes.length_ofNat]
  | int32 | int64 | uint64 | text =>
    refine ⟨rfl, _, rfl, fun bytes encoded => ?_⟩
    cases encoded
    rfl

section
variable {v : ResultValue} {data : ScaleData} {scales : List DimScale}
  {attributes : List Attribute} {a₁ : Archive}

/-- Where a value was stored, labelled and described, room can be kept for it instead, in a dataset
that is the same when bare and has no part of the value yet. -/
theorem exists_reserved (transparent : a.Transparent) (coherent : a.Coherent)
    (sized : a.chunkBytes < Bytes.span 8) (is : ScaleData.ofValue? v = some data)
    (full : 0 ∉ data.dims.tail)
    (ran : (do putValue path false v; annotate r path scales attributes) a = .ok () a₁) :
    ∃ a₂ whole, (do
        createEmptyOf path (.scalar data.element) data.dims none (filling data.element)
        annotate r path scales attributes) a = .ok () a₂ ∧
      a₁.tree.at? path = some whole ∧ whole.extensible = false ∧
      (data.HeldBy whole → whole.RowsHaveFrames) ∧
      Filled path whole [] (data.dims.head? = some 0) a₂ := by
  obtain ⟨write, writes, put⟩ := exists_write is path
  obtain ⟨_, b₂, stored, labelled⟩ := exists_of_step_eq_ok ran
  rw [put] at stored
  obtain ⟨_, b₁, made, written⟩ := exists_of_step_eq_ok stored
  obtain ⟨fits, filled, encoded, size⟩ := filling_spec data.element
  obtain ⟨c₁, reserved, alike₁⟩ :=
    exists_createEmptyOf transparent made full sized fits encoded size
  obtain ⟨coherent₁, id, _, new, stands₁⟩ :=
    (ends_createDataset_stands coherent).good_of_eq made
  obtain ⟨coherent', id', _, new', stands'⟩ :=
    (ends_createEmptyOf (fun _ => trivial) (ends_createDataset_stands coherent)).good_of_eq reserved
  -- The value is written on the one side only.
  obtain ⟨left₂, stands₂⟩ :=
    (writes.lasts _ robust_stands b₁ ⟨alike₁.left, stands₁⟩).good_of_eq written
  have alike₂ : Coupled b₂ c₁ :=
    ⟨(writes.keeps c₁ b₁ alike₁.below).good_of_eq written, left₂, alike₁.right⟩
  obtain ⟨a₂, labelled', alike⟩ := (alike_annotate alike₂ path scales attributes).exists_ok labelled
  obtain ⟨-, stands⟩ :=
    (preserves_annotate robust_stands b₂ ⟨left₂, stands₂⟩).good_of_eq labelled
  obtain ⟨-, stands''⟩ :=
    (preserves_annotate robust_stands c₁ ⟨alike₁.right, stands'⟩).good_of_eq labelled'
  have added : Added (fun _ => True) c₁ a₂ :=
    (adds_annotate (fun _ => trivial) scales attributes c₁ coherent'.added).good_of_eq labelled'
  have same : id' = id := by
    have nodes : a₁.tree.nodes = a₂.tree.nodes := alike.below.nodes.symm
    have node := stands.node
    rw [nodes, stands''.node] at node
    cases node
    rfl
  subst same
  have found := (Tree.at?_of_node stands.node).trans (Tree.getElem?_of_lt stands.known)
  have framed := (writes.framed full b₁ id' coherent₁
    (Tree.denoted?_of_node stands₁.node)).good_of_eq written
  refine ⟨a₂, a₁.dataset id', (bind_eq_of_ok reserved _).trans labelled', found,
    stands.alike.extensible.trans (congrArg Dataset.extensible new), fun held => ?_,
    added.coherent, id', stands''.node, ?_,
    stands''.alike.extensible.trans (congrArg Dataset.extensible new')⟩
  · exact framed _ held stands.alike.path stands.alike.type
  · exact ⟨(alike.below.dataset id').symm, fun _ mem => by cases mem⟩

end

end Shelf

end StudyArchive
