import StudyArchive.Proofs.Archive.Reads
import StudyArchive.Proofs.Dataset.Blocks
/-
# Matrices in blocks

A write that succeeded put what it was given into one block of its dataset, whichever way a matrix
goes to the disk: row by row, or at once (`Archive.ends_putMatrix_at`,
`Archive.ends_putMatrices_at`). Reading the block with the same flag gives it back
(`Archive.getMatrix_eq_ok`, `Archive.getMatrices_eq_ok`).
-/

namespace StudyArchive

theorem ElementType.ofDatum?_toDatum (e : ElementType) (v : e.Value) :
    e.ofDatum? (e.toDatum v) = some v := by
  cases e with
  | int32 =>
    have fits : Datum.fitsInt32 (Int32.toInt64 v) = true := Datum.fitsInt32_toInt64 v
    refine (if_pos fits).trans (congrArg some ?_)
    exact Int32.toInt32_toInt64 v
  | _ => rfl

theorem TypedRead.length_unfolded {α : Type} (m : Matrix α) (transpose : Bool) :
    (unfolded transpose m).length = volume (Archive.diskShape m transpose) := by
  cases transpose with
  | true => simp [unfolded, Archive.diskShape, volume, m.length_toColumnMajor]
  | false => simp [unfolded, Archive.diskShape, volume, m.length_toRowMajor]

namespace Archive

open Selection Dataset

variable {a a' : Archive} {path : Path} {id : DatasetId} {e : ElementType} {operation : String}
  {lead : List Nat} {transpose : Bool}

/-! ## Writing

A matrix is put as blocks of rows or as one block; either way the parts lie one after the other,
and `PutFrom` counts how far they have come. -/

/-- An operation on a path works on the dataset that the path denotes, of the type and rank that it
asks for, if that is not refused. -/
theorem ends_find_or (coherent : a.Coherent) (denotes : a.tree.denoted? path = some id)
    {operation : String} {rank : Nat} {next : DatasetId → Action Unit}
    {good : Unit → Archive → Prop} {bad : StorageError → Archive → Prop}
    (refused : ∀ err, a.lookupTyped path operation rank e = .error err → bad err a)
    (h : (a.dataset id).type = .scalar e → (a.dataset id).rank = rank →
      Ends (next id) a good bad) :
    Ends (find path operation rank e >>= next) a good bad := by
  unfold find
  refine ends_bind.2 (ends_bind.2 (ends_get.2 (ends_liftExcept.2
    ⟨fun id' found => ?_, fun err failed => refused err failed⟩)))
  obtain ⟨denotes', type, rank⟩ := coherent.of_lookupTyped found
  obtain rfl : id = id' := Option.some.inj (denotes.symm.trans denotes')
  exact h type rank

theorem ends_find_denoted (coherent : a.Coherent) (denotes : a.tree.denoted? path = some id)
    {operation : String} {rank : Nat} {next : DatasetId → Action Unit}
    {good : Unit → Archive → Prop}
    (h : (a.dataset id).type = .scalar e → (a.dataset id).rank = rank →
      Ends (next id) a good fun _ _ => True) :
    Ends (find path operation rank e >>= next) a good fun _ _ => True :=
  ends_find_or coherent denotes (fun _ _ => trivial) h

/-- An archive is itself with any of its datasets as it is. -/
theorem altered_self (ready : a.mounted.Ready) : Altered a path id (a.dataset id) a :=
  ⟨ready, rfl, rfl, rfl, fun _ _ _ => rfl, fun _ _ kept => .inl kept⟩

theorem Altered.there {d' : Dataset} (h : Altered a path id d' a')
    (known : id < a.tree.datasets.length) : id < a'.tree.datasets.length := h.length ▸ known

/-- An archive in which a block of one dataset was written over. -/
def PutAt (a : Archive) (path : Path) (id : DatasetId) (lead : List Nat) (values : List Datum)
    (a' : Archive) : Prop :=
  ∃ d', WroteAt (a.dataset id) lead values d' ∧ Altered a path id d' a'

/-- An archive in which blocks of one dataset were written one after the other. -/
def PutFrom (a : Archive) (path : Path) (id : DatasetId) (lead : List Nat) (k : Nat)
    (parts : List (List Datum)) (a' : Archive) : Prop :=
  ∃ d', BlocksFrom (a.dataset id) lead k parts d' ∧ Altered a path id d' a'

section
variable (ready : a.mounted.Ready) (known : id < a.tree.datasets.length)

include ready known

/-- What was put over a selection was written there. -/
theorem ends_put_written (path : Path) {s : Selection} {data : List Datum} :
    Ends (put id operation s data) a
      (fun _ a' => ∃ d', (a.dataset id).write operation s data = .ok d' ∧ Altered a path id d' a')
      (fun _ _ => True) := by
  have here := Tree.getElem?_of_lt known
  have node := ready.sound.placed here
  refine ends_onContainer.2 ((Container.ends_write_or ready node
    ((Tree.at?_of_node node).trans here)).mono ?_ fun _ _ _ => trivial)
  rintro _ m ⟨d', written, turned⟩
  exact ⟨d', written, altered_of_turned ready here turned⟩

theorem ends_put_at (path : Path) {s : Selection} {data : List Datum}
    (block : s = .ofBlock lead ((a.dataset id).dims.drop lead.length)) :
    Ends (put id operation s data) a (fun _ => PutAt a path id lead data) (fun _ _ => True) := by
  refine (ends_put_written ready known path).mono ?_ fun _ _ _ => trivial
  rintro _ a' ⟨d', written, altered⟩
  rw [block] at written
  exact ⟨d', wroteAt_of_write (ready.sound.each (Tree.getElem?_of_lt known)) written, altered⟩

end

theorem PutFrom.cons {a₁ : Archive} {k : Nat} {v : List Datum} {parts : List (List Datum)}
    (h : PutAt a path id (lead ++ [k]) v a₁) (h' : PutFrom a₁ path id lead (k + 1) parts a') :
    PutFrom a path id lead k (v :: parts) a' := by
  obtain ⟨d₁, wrote, altered⟩ := h
  obtain ⟨d', from_, altered'⟩ := h'
  rw [altered.here] at from_
  exact ⟨d', .cons wrote from_, altered.trans altered'⟩

theorem PutFrom.whole {parts : List (List Datum)} {rest : List Nat}
    (h : PutFrom a path id lead 0 parts a')
    (dims : (a.dataset id).dims.drop lead.length = parts.length :: rest) :
    PutAt a path id lead parts.flatten a' := by
  obtain ⟨d', from_, altered⟩ := h
  exact ⟨d', from_.whole dims, altered⟩

theorem PutAt.dims_eq {values : List Datum} (h : PutAt a path id lead values a') :
    (a'.dataset id).dims = (a.dataset id).dims := by
  obtain ⟨d', wrote, altered⟩ := h
  rw [altered.here, wrote.dims]

theorem PutAt.ready {values : List Datum} (h : PutAt a path id lead values a') :
    a'.mounted.Ready := by
  obtain ⟨_, -, altered⟩ := h
  exact altered.ready

theorem PutAt.there {values : List Datum} (h : PutAt a path id lead values a')
    (known : id < a.tree.datasets.length) : id < a'.tree.datasets.length := by
  obtain ⟨_, -, altered⟩ := h
  exact altered.there known

theorem ends_putRows_at {height width row : Nat} {rows : List (List e.Value)}
    (ready : a.mounted.Ready) (known : id < a.tree.datasets.length) (path : Path)
    (dims : (a.dataset id).dims.drop lead.length = [height, width]) :
    Ends (putRows id operation lead width row rows) a
      (fun _ => PutFrom a path id lead row (rows.map (·.map e.toDatum))) (fun _ _ => True) := by
  induction rows generalizing a row with
  | nil => exact ends_pure.2 ⟨_, .nil .., altered_self ready⟩
  | cons values rest ih =>
    have block : Selection.mk (lead ++ [row, 0]) (lead.map (fun _ => 1) ++ [1, width]) =
        .ofBlock (lead ++ [row]) ((a.dataset id).dims.drop (lead ++ [row]).length) := by
      rw [List.length_append, ← List.drop_drop, dims]
      simp [ofBlock]
    refine (ends_put_at ready known path block).bind ?_
    intro _ a₁ put
    refine (ih put.ready (put.there known) (put.dims_eq ▸ dims)).imp ?_
    exact fun _ a₂ more => .cons put more

theorem ends_putMatrix_at {m : Matrix e.Value} (ready : a.mounted.Ready)
    (known : id < a.tree.datasets.length) (path : Path) :
    Ends (putMatrix id operation lead m transpose) a
      (fun _ a' => (a.dataset id).dims.drop lead.length = diskShape m transpose ∧
        PutAt a path id lead ((TypedRead.unfolded transpose m).map e.toDatum) a')
      (fun _ _ => True) := by
  unfold putMatrix
  refine ends_bind.2 (ends_get.2 (ends_ite.2 ⟨fun shape => ?_, fun _ =>
    ends_bind.2 (ends_throw.2 trivial)⟩))
  cases transpose with
  | true =>
    have block : Selection.mk (lead ++ [0, 0]) (lead.map (fun _ => 1) ++ diskShape m true) =
        .ofBlock lead ((a.dataset id).dims.drop lead.length) := by
      rw [shape]
      rfl
    exact (ends_put_at ready known path block).imp fun _ _ put => ⟨shape, put⟩
  | false =>
    refine (ends_putRows_at ready known path shape).imp fun _ a' put => ⟨shape, ?_⟩
    have rows : (m.rowList.map (·.map e.toDatum)).length = m.rows := by
      rw [List.length_map, m.length_rowList]
    have whole := put.whole (by rw [rows]; exact shape)
    rwa [← List.map_flatten] at whole

theorem ends_putEach_at {depth k : Nat} {room : List Nat} {matrices : List (Matrix e.Value)}
    (ready : a.mounted.Ready) (known : id < a.tree.datasets.length) (path : Path)
    (dims : (a.dataset id).dims.drop lead.length = depth :: room) :
    Ends (putEach id operation lead transpose k matrices) a
      (fun _ a' => (∀ m ∈ matrices, room = diskShape m transpose) ∧
        PutFrom a path id lead k
          (matrices.map fun m => (TypedRead.unfolded transpose m).map e.toDatum) a')
      (fun _ _ => True) := by
  induction matrices generalizing a k with
  | nil =>
    exact ends_pure.2 ⟨fun _ mem => absurd mem List.not_mem_nil, _, .nil .., altered_self ready⟩
  | cons m rest ih =>
    refine (ends_putMatrix_at ready known path).bind ?_
    rintro _ a₁ ⟨shape, put⟩
    rw [List.length_append, ← List.drop_drop, dims] at shape
    refine (ih put.ready (put.there known) (put.dims_eq ▸ dims)).imp ?_
    rintro _ a₂ ⟨shapes, more⟩
    exact ⟨List.forall_mem_cons.2 ⟨shape, shapes⟩, .cons put more⟩

theorem ends_putMatrices_at {depth : Nat} {room : List Nat} {matrices : List (Matrix e.Value)}
    (ready : a.mounted.Ready) (known : id < a.tree.datasets.length) (path : Path)
    (dims : (a.dataset id).dims.drop lead.length = depth :: room) :
    Ends (putMatrices id operation lead matrices transpose) a
      (fun _ a' => matrices.length = depth ∧ (∀ m ∈ matrices, room = diskShape m transpose) ∧
        PutAt a path id lead
          ((matrices.flatMap (TypedRead.unfolded transpose)).map e.toDatum) a')
      (fun _ _ => True) := by
  have extent : (a.dataset id).dims[lead.length]?.getD 0 = depth := by
    have front : ((a.dataset id).dims.drop lead.length)[0]? = some depth := by rw [dims]; rfl
    rw [List.getElem?_drop, Nat.add_zero] at front
    rw [front, Option.getD_some]
  unfold putMatrices
  simp only [ends_bind, ends_get, extent]
  refine ends_ite.2 ⟨fun count => ?_, fun _ => ends_bind.2 (ends_throw.2 trivial)⟩
  refine (ends_putEach_at ready known path dims).imp ?_
  rintro _ a' ⟨shapes, put⟩
  refine ⟨count, shapes, ?_⟩
  have whole := put.whole (by rw [List.length_map, count]; exact dims)
  rwa [← List.flatMap_def, ← List.map_flatMap] at whole

/-! ## Reading

A block is read in one piece, and folded into rows or, transposed, into columns. -/

theorem elements_map_toDatum (d : Dataset) (operation : String) (values : List e.Value) :
    elements d operation e (values.map e.toDatum) = .ok values := by
  induction values with
  | nil => rfl
  | cons v rest ih =>
    simp only [List.map_cons, elements, e.ofDatum?_toDatum]
    rw [ih]
    rfl

variable {d : Dataset}

/-- A block that is within the extents is read as it is. -/
theorem read_block (inside : Inside (d.dims.take lead.length) lead) {rest : List Nat}
    (dims : d.dims.drop lead.length = rest) :
    d.read operation (.ofBlock lead rest) = .ok (d.block lead) := by
  have zeros : (Selection.mk (rest.map fun _ => 0) rest).Fits rest := by
    clear dims
    induction rest with
    | nil => exact ⟨rfl, rfl, .nil⟩
    | cons n rest ih => exact ⟨by simp, rfl, .cons (by simp) ih.2.2⟩
  have fits : (ofBlock lead rest).Fits (d.dims.take lead.length ++ d.dims.drop lead.length) :=
    (fits_lead inside.length_eq).2 ⟨inside, dims ▸ zeros⟩
  rw [List.take_append_drop] at fits
  have checked : d.checkSelection operation (ofBlock lead rest) = .ok () :=
    checkSelection_eq_ok_iff.2 fits
  refine (bind_of_eq_ok checked _).trans (congrArg Except.ok ?_)
  rw [cells_ofBlock, List.map_map, block, dims]
  rfl

theorem getMatrix_eq_ok {m : Matrix e.Value} (inside : Inside (d.dims.take lead.length) lead)
    (shape : d.dims.drop lead.length = diskShape m transpose)
    (here : d.block lead = (TypedRead.unfolded transpose m).map e.toDatum) (operation : String) :
    getMatrix d operation e lead transpose = .ok m := by
  obtain ⟨rows, cols, dims⟩ : ∃ rows cols, diskShape m transpose = [rows, cols] := by
    unfold diskShape
    split <;> exact ⟨_, _, rfl⟩
  have extent (k : Nat) : d.dims[lead.length + k]? = [rows, cols][k]? := by
    rw [← List.getElem?_drop, shape, dims]
  have height : d.dims[lead.length]? = some rows := extent 0
  have width : d.dims[lead.length + 1]? = some cols := extent 1
  have read : d.read operation ⟨lead ++ [0, 0], lead.map (fun _ => 1) ++ [rows, cols]⟩ =
      .ok ((TypedRead.unfolded transpose m).map e.toDatum) :=
    (read_block inside (shape.trans dims)).trans (congrArg Except.ok here)
  unfold getMatrix
  simp only [height, width, Option.getD_some]
  rw [bind_of_eq_ok read, bind_of_eq_ok (elements_map_toDatum d operation _)]
  cases transpose with
  | true =>
    cases dims
    simp only [TypedRead.unfolded, if_true, m.ofColumnMajor?_toColumnMajor]
    rfl
  | false =>
    cases dims
    simp only [TypedRead.unfolded, Bool.false_eq_true, if_false, m.ofRowMajor?_toRowMajor]
    rfl

/-- Computations that succeed one by one succeed one after the other. -/
theorem mapM_eq_ok {α β ε : Type} {f : α → Except ε β} {l : List α} {l' : List β}
    (each : List.Forall₂ (fun x y => f x = .ok y) l l') : l.mapM f = .ok l' := by
  induction each with
  | nil => rfl
  | cons first _ ih =>
    rw [List.mapM_cons, bind_of_eq_ok first, bind_of_eq_ok ih]
    rfl

/-- An index more, of the next axis, is inside as well. -/
theorem inside_snoc (inside : Inside (d.dims.take lead.length) lead) {n : Nat} {rest : List Nat}
    (dims : d.dims.drop lead.length = n :: rest) {k : Nat} (low : k < n) :
    Inside (d.dims.take (lead ++ [k]).length) (lead ++ [k]) := by
  have take : d.dims.take (lead ++ [k]).length = d.dims.take lead.length ++ [n] := by
    rw [List.length_append, List.take_add, dims]
    rfl
  rw [take]
  exact List.rel_append inside (.cons low .nil)

/-- A matrix that lies in the block below some leading indices. -/
structure HasMatrix (d : Dataset) (lead : List Nat) (transpose : Bool) (m : Matrix e.Value) :
    Prop where
  inside : Inside (d.dims.take lead.length) lead
  shape : d.dims.drop lead.length = diskShape m transpose
  here : d.block lead = (TypedRead.unfolded transpose m).map e.toDatum

section
variable {matrices : List (Matrix e.Value)} {room : List Nat}
  (inside : Inside (d.dims.take lead.length) lead)
  (dims : d.dims.drop lead.length = matrices.length :: room)
  (shapes : ∀ m ∈ matrices, room = diskShape m transpose)
  (here : d.block lead = (matrices.flatMap (TypedRead.unfolded transpose)).map e.toDatum)

include inside dims shapes here

/-- Each of the matrices in a block lies in a block of its own. -/
theorem hasMatrix_of_list {k : Nat} {m : Matrix e.Value} (there : matrices[k]? = some m) :
    HasMatrix d (lead ++ [k]) transpose m where
  inside := inside_snoc inside dims (List.getElem?_eq_some_iff.1 there).1
  shape := by
    rw [List.length_append, ← List.drop_drop, dims]
    exact shapes m (List.mem_of_getElem? there)
  here := by
    have count : d.dims.drop lead.length = (matrices.map fun m =>
        (TypedRead.unfolded transpose m).map e.toDatum).length :: room := by
      rw [List.length_map, dims]
    refine block_of_parts count ?_ ?_ ?_
    · rw [here, List.map_flatMap, List.flatMap_def]
    · intro v part
      obtain ⟨m, mem, rfl⟩ := List.mem_map.1 part
      rw [List.length_map, shapes m mem, TypedRead.length_unfolded]
    · rw [List.getElem?_map, there]
      rfl

theorem getMatrices_eq_ok (operation : String) :
    (List.range matrices.length).mapM
      (fun k => getMatrix d operation e (lead ++ [k]) transpose) = .ok matrices := by
  refine mapM_eq_ok (List.forall₂_iff_get.2 ⟨by simp, fun k low low' => ?_⟩)
  obtain ⟨inner, shape, block⟩ := hasMatrix_of_list inside dims shapes here
    (List.getElem?_eq_getElem low')
  simp only [List.get_eq_getElem, List.getElem_range]
  exact getMatrix_eq_ok inner shape block operation

end

end Archive
end StudyArchive
