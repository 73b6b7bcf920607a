import StudyArchive.Proofs.Archive.Transposed
import StudyArchive.Proofs.Container.Abreast
/-
# Row by row, or at once

A matrix goes to the disk row by row, and transposed it goes there at once, as the buffer of the
transpose.  Both ways write the same cells in the same order, so that they leave one and the same
tree (`Archive.Paired.putMatrix`), and both are refused for the same reasons.  Only a matrix without
rows is not looked at row by row: put beyond the extent, it is refused at once but not row by row
(`MatrixValue.rowless_accepted_beyond`).

An index counts as one only if the next number is a machine word too, since that is where the
selection ends.  The last word of all is no index: what comes of it is not said here.
-/

namespace StudyArchive

open Dataset Selection

/-! ## Cells one after the other

The cells of a matrix, row after row, are the cells that it has when it is written at once, in the
same order. -/

namespace Dataset

/-- The cells of rows of a table below some leading indices. -/
def rowCells (lead : List Nat) (width first count : Nat) : List (List Nat) :=
  (List.range' first count).flatMap fun r =>
    (Selection.mk (lead ++ [r, 0]) (lead.map (fun _ => 1) ++ [1, width])).cells

/-- The rows of a table make it up. -/
theorem cells_table (lead : List Nat) (height width : Nat) :
    (Selection.mk (lead ++ [0, 0]) (lead.map (fun _ => 1) ++ [height, width])).cells =
      rowCells lead width 0 height := by
  have row (r : Nat) :
      (Selection.mk (lead ++ [r, 0]) (lead.map (fun _ => 1) ++ [1, width])).cells =
        (indices [width]).map fun rest => lead ++ r :: rest := by
    have block := cells_ofBlock (lead ++ [r]) [width]
    simp only [ofBlock, List.append_assoc, List.map_append] at block
    simpa using block
  have table := cells_ofBlock lead [height, width]
  rw [ofBlock] at table
  refine table.trans ?_
  rw [indices_cons, List.map_flatMap, rowCells, List.range_eq_range']
  simp only [row, List.map_map, Function.comp_def]

theorem setCells_append (d : Dataset) {cells cells' : List (List Nat)} {values values' : List Datum}
    (same : cells.length = values.length) :
    d.setCells (cells ++ cells') (values ++ values') =
      (d.setCells cells values).setCells cells' values' := by
  unfold setCells
  rw [List.zip_append same, List.foldl_append]

/-- A selection that is beyond the first extent is refused for it. -/
theorem checkSelection_beyond {d : Dataset} {n i : Nat} {dims start count : List Nat}
    (eq : d.dims = n :: dims) (starts : start.length = dims.length)
    (counts : count.length = dims.length) (beyond : n ≤ i) (word : IsWord (i + 1))
    (operation : String) :
    d.checkSelection operation ⟨i :: start, 1 :: count⟩ =
      .error (.invalidIndex d.path operation i n) := by
  have overrun : overrun? 0 (i :: start) (1 :: count) d.dims = some (.beyond 0) := by
    rw [eq, overrun?, if_neg (by omega), if_pos word]
  have rank : d.rank = dims.length + 1 := congrArg List.length eq
  have rows : d.rows = n := by rw [Dataset.rows, eq]; rfl
  unfold checkSelection
  simp only [overrun, rank, starts, counts, rows, List.length_cons]
  exact if_neg (by simp)

end Dataset

namespace Tree

variable {t : Tree} {id : DatasetId}

theorem updateDataset_updateDataset (t : Tree) (id : DatasetId) (d d' : Dataset) :
    (t.updateDataset id d).updateDataset id d' = t.updateDataset id d' :=
  congrArg (fun datasets => { t with datasets }) (List.set_set d)

theorem updateDataset_self (known : id < t.datasets.length) :
    t.updateDataset id (t.dataset id) = t := by
  have here := getElem?_of_lt known
  have same : t.datasets.set id (t.dataset id) = t.datasets := by
    refine List.ext_getElem? fun k => ?_
    rw [List.getElem?_set]
    split
    · next eq =>
      subst eq
      exact here.symm
    · rfl
  exact congrArg (fun datasets => { t with datasets }) same

end Tree

namespace Archive

variable {a b a' b' a'' : Archive} {id : DatasetId} {e : ElementType} {dims : List Nat}
  {cells cells' : List (List Nat)} {values values' : List Datum}

/-! ## Writing over cells -/

/-- An archive in which cells of one dataset were written over. -/
structure Overwrote (a : Archive) (id : DatasetId) (cells : List (List Nat)) (values : List Datum)
    (a' : Archive) : Prop where
  ready : a'.mounted.Ready
  tree : a'.tree = a.tree.updateDataset id ((a.dataset id).setCells cells values)

namespace Overwrote

theorem refl (h : a.Holds id e dims) : Overwrote a id [] [] a where
  ready := h.ready
  tree := (Tree.updateDataset_self h.known).symm

variable (h : Overwrote a id cells values a') (known : id < a.tree.datasets.length)

include h known

theorem dataset_eq : a'.dataset id = (a.dataset id).setCells cells values := by
  have here := Tree.dataset_updateDataset known ((a.dataset id).setCells cells values) id
  rw [if_pos rfl, ← h.tree] at here
  exact here

theorem trans (h' : Overwrote a' id cells' values' a'') (same : cells.length = values.length) :
    Overwrote a id (cells ++ cells') (values ++ values') a'' where
  ready := h'.ready
  tree := by
    rw [h'.tree, h.dataset_eq known, h.tree, Tree.updateDataset_updateDataset,
      setCells_append _ same]

omit known in
theorem holds (before : a.Holds id e dims) : a'.Holds id e dims := by
  obtain ⟨chunks, eq⟩ := setCells_eq (a.dataset id) cells values
  have here := h.dataset_eq before.known
  rw [eq] at here
  refine ⟨h.ready, ?_, ?_, ?_⟩
  · rw [h.tree, Tree.updateDataset, List.length_set]
    exact before.known
  · rw [here]
    exact before.type
  · rw [here]
    exact before.dims_eq

end Overwrote

/-- Elements that are put where they fit go to the cells of the selection. -/
theorem ends_put_cells (h : a.Holds id e dims) (operation : String) {s : Selection}
    {values : List e.Value} (fits : s.Fits dims) (size : s.size = values.length) :
    Ends (put id operation s (values.map e.toDatum)) a
      (fun _ => Overwrote a id s.cells (values.map e.toDatum))
      (fun err _ => err.isUnencodable) := by
  obtain ⟨w, isOpen⟩ := h.ready.isOpen
  have writes : Ends (put id operation s (values.map e.toDatum)) a
      (fun _ => Overwrote a id s.cells (values.map e.toDatum)) (fun _ _ => True) := by
    refine ends_onContainer.2 ((Container.ends_write h.ready.sound isOpen h.known operation s
      (values.map e.toDatum)).mono ?_ fun _ _ _ => trivial)
    rintro _ m ⟨d', r, written, tree, -, took⟩
    obtain ⟨-, -, rfl⟩ := write_eq_ok written
    exact ⟨Container.ready_of_took h.ready took, tree⟩
  refine (writes.and (ends_put_fits h size)).mono (fun _ _ both => both.1) ?_
  exact fun err _ bad => bad.2.resolve_right fun out => out.2 fits

/-- A selection that is refused is not put. -/
theorem put_eq_error {err : StorageError} {operation : String} {s : Selection}
    (refused : (a.dataset id).checkSelection operation s = .error err) (data : List Datum) :
    put id operation s data a = .error err a := by
  have container : Container.write id operation s data a.mounted = .error err a.mounted := by
    unfold Container.write
    rw [get_bind]
    have check : a.mounted.container.dataset id = a.dataset id := rfl
    rw [check, refused]
    rfl
  unfold put onContainer
  rw [container]

section
variable {leadDims lead : List Nat} {height width : Nat} (operation : String)
  (inside : Inside leadDims lead)

include inside

/-- Rows that are put one by one go to the cells of the rows. -/
theorem ends_putRows_cells {row : Nat} {rows : List (List e.Value)}
    (h : a.Holds id e (leadDims ++ [height, width])) (low : row + rows.length ≤ height)
    (wide : ∀ values ∈ rows, values.length = width) :
    Ends (putRows id operation lead width row rows) a
      (fun _ => Overwrote a id (rowCells lead width row rows.length)
        (rows.flatten.map e.toDatum))
      (fun err _ => err.isUnencodable) := by
  induction rows generalizing a row with
  | nil => exact ends_pure.2 (.refl h)
  | cons values rest ih =>
    rw [List.length_cons] at low
    have size : (Selection.mk (lead ++ [row, 0]) (lead.map (fun _ => 1) ++ [1, width])).size =
        values.length := by
      rw [size_lead, wide values List.mem_cons_self]
      simp [volume]
    have fits : (Selection.mk (lead ++ [row, 0]) (lead.map (fun _ => 1) ++ [1, width])).Fits
        (leadDims ++ [height, width]) := by
      refine (fits_lead inside.length_eq).2 ⟨inside, rfl, rfl, .cons ?_ (.cons ?_ .nil)⟩
      · show row + 1 ≤ height
        omega
      · exact Nat.le_of_eq (Nat.zero_add width)
    refine (ends_put_cells h operation fits size).bind ?_
    intro _ a₁ first
    refine (ih (first.holds h) (by omega) fun values mem =>
      wide values (List.mem_cons_of_mem _ mem)).imp ?_
    intro _ a₂ others
    have even :
        (Selection.mk (lead ++ [row, 0]) (lead.map (fun _ => 1) ++ [1, width])).cells.length =
          (values.map e.toDatum).length := by
      rw [length_cells _ (fits.1.trans fits.2.1.symm), size, List.length_map]
    have both := first.trans h.known others even
    rw [← List.map_append] at both
    exact both

/-- A matrix goes to the cells of a table, row by row or at once. -/
theorem ends_putMatrix_cells {t : Bool} {m : Matrix e.Value}
    (h : a.Holds id e (leadDims ++ [height, width])) (shape : diskShape m t = [height, width]) :
    Ends (putMatrix id operation lead m t) a
      (fun _ => Overwrote a id (rowCells lead width 0 height)
        ((TypedRead.unfolded t m).map e.toDatum))
      (fun err _ => err.isUnencodable) := by
  have room : (a.dataset id).dims.drop lead.length = diskShape m t := by
    rw [h.dims_eq, inside.length_eq, List.drop_left, shape]
  unfold putMatrix
  refine ends_bind.2 (ends_get.2 (ends_ite.2 ⟨fun _ => ?_, fun misfit => absurd room misfit⟩))
  cases t with
  | false =>
    cases shape
    have low : 0 + m.rowList.length ≤ m.rows := by
      rw [m.length_rowList]
      omega
    have rows := ends_putRows_cells operation inside h low fun row => m.length_of_mem_rowList
    rw [m.length_rowList] at rows
    exact rows
  | true =>
    cases shape
    have size : (Selection.mk (lead ++ [0, 0]) (lead.map (fun _ => 1) ++ diskShape m true)).size =
        m.toColumnMajor.length := by
      rw [size_lead, m.length_toColumnMajor]
      simp [diskShape, volume]
    have fits : (Selection.mk (lead ++ [0, 0]) (lead.map (fun _ => 1) ++ diskShape m true)).Fits
        (leadDims ++ diskShape m true) :=
      (fits_lead inside.length_eq).2 ⟨inside, by simp [Fits, diskShape]⟩
    have put := ends_put_cells h operation fits size
    rw [diskShape, if_pos rfl, cells_table] at put
    exact put

end

/-! ## Refused matrices

A matrix of another shape is refused both ways with one error, and so is a matrix beyond the
extent; but row by row it takes a row to find the index out. -/

theorem putMatrix_misfit (operation : String) {lead room : List Nat} {t : Bool} {m : Matrix e.Value}
    (rest : (a.dataset id).dims.drop lead.length = room) (misfit : room ≠ diskShape m t) :
    putMatrix id operation lead m t a =
      .error (.shapeMismatch (a.dataset id).path operation (showExtents room)
        (showExtents (diskShape m t))) a := by
  unfold putMatrix
  rw [get_bind]
  simp only [rest]
  rw [if_neg misfit]
  rfl

/-- A matrix is refused at an index beyond the extent: at once in any case, row by row if it has
rows. -/
theorem putMatrix_beyond (operation : String) {n i : Nat} {dims lead : List Nat} {t : Bool}
    {m : Matrix e.Value} (eq : (a.dataset id).dims = n :: dims)
    (room : dims.drop lead.length = diskShape m t) (beyond : n ≤ i) (word : IsWord (i + 1))
    (rowed : t = false → 0 < m.rows) :
    putMatrix id operation (i :: lead) m t a =
      .error (.invalidIndex (a.dataset id).path operation i n) a := by
  have length : dims.length = lead.length + 2 := by
    have two : (dims.drop lead.length).length = 2 := by
      rw [room]
      cases t <;> rfl
    rw [List.length_drop] at two
    omega
  have refused {start count : List Nat} (starts : start.length = 2) (counts : count.length = 2) :
      (a.dataset id).checkSelection operation
        ⟨i :: lead ++ start, (i :: lead).map (fun _ => 1) ++ count⟩ =
          .error (.invalidIndex (a.dataset id).path operation i n) :=
    checkSelection_beyond eq (by simp [length, starts]) (by simp [length, counts]) beyond word
      operation
  have rest : (a.dataset id).dims.drop (i :: lead).length = diskShape m t := by
    rw [eq]
    exact room
  unfold putMatrix
  rw [get_bind]
  simp only [rest, if_true]
  cases t with
  | true => exact put_eq_error (refused rfl rfl) _
  | false =>
    obtain ⟨row, rows, rows_eq⟩ : ∃ row rows, m.rowList = row :: rows :=
      List.exists_cons_of_length_pos (m.length_rowList.symm ▸ rowed rfl)
    rw [rows_eq]
    exact bind_eq_of_error (put_eq_error (refused rfl rfl) _) _

/-! ## Two ways side by side

The two ways differ in the records that they log, so states are compared by their trees alone.
`Alongside` goes on from two such states with two different steps. -/

/-- Two steps that end alike, unless one of them has a record without a frame. -/
inductive Alongside {α : Type} (R : Archive → Archive → Prop) (x y : Action α) (a b : Archive) :
    Prop
  | left {err : StorageError} {a' : Archive} (ran : x a = .error err a')
      (unencodable : err.isUnencodable)
  | right {err : StorageError} {b' : Archive} (ran : y b = .error err b')
      (unencodable : err.isUnencodable)
  | together (h : Together R x y a b)

namespace Alongside

variable {α β : Type} {R R' : Archive → Archive → Prop} {x y : Action α}

theorem bind {f g : α → Action β} (first : Alongside R x y a b)
    (next : ∀ v a' b', R a' b' → Alongside R (f v) (g v) a' b') :
    Alongside R (x >>= f) (y >>= g) a b := by
  cases first with
  | left ran unencodable => exact .left (bind_eq_of_error ran f) unencodable
  | right ran unencodable => exact .right (bind_eq_of_error ran g) unencodable
  | together h =>
    cases h with
    | error left right related =>
      exact .together (.error (bind_eq_of_error left f) (bind_eq_of_error right g) related)
    | @ok v a' b' left right related =>
      have left_eq := bind_eq_of_ok left f
      have right_eq := bind_eq_of_ok right g
      cases next v a' b' related with
      | left ran unencodable => exact .left (left_eq.trans ran) unencodable
      | right ran unencodable => exact .right (right_eq.trans ran) unencodable
      | together h' =>
        cases h' with
        | ok left' right' related' =>
          exact .together (.ok (left_eq.trans left') (right_eq.trans right') related')
        | error left' right' related' =>
          exact .together (.error (left_eq.trans left') (right_eq.trans right') related')

theorem get {f g : Archive → Action α} (next : Alongside R (f a) (g b) a b) :
    Alongside R (get >>= f) (get >>= g) a b := by
  cases next with
  | left ran unencodable => exact .left ran unencodable
  | right ran unencodable => exact .right ran unencodable
  | together h => exact .together (.get h)

theorem mono (h : Alongside R x y a b) (imp : ∀ a' b', R a' b' → R' a' b') :
    Alongside R' x y a b := by
  cases h with
  | left ran unencodable => exact .left ran unencodable
  | right ran unencodable => exact .right ran unencodable
  | together h =>
    cases h with
    | ok left right related => exact .together (.ok left right (imp _ _ related))
    | error left right related => exact .together (.error left right (imp _ _ related))

theorem of_ends {x y : Action Unit} {P Q : Archive → Prop}
    (left : Ends x a (fun _ => P) (fun err _ => err.isUnencodable))
    (right : Ends y b (fun _ => Q) (fun err _ => err.isUnencodable))
    (related : ∀ a' b', P a' → Q b' → R a' b') : Alongside R x y a b := by
  cases ran : x a with
  | error err a' => exact .left ran (left.bad_of_eq ran)
  | ok v a' =>
    cases ran' : y b with
    | error err b' => exact .right ran' (right.bad_of_eq ran')
    | ok v' b' =>
      exact .together (.ok ran ran' (related _ _ (left.good_of_eq ran) (right.good_of_eq ran')))

end Alongside

/-- Two archives with one tree, of which a dataset is known. -/
structure Paired (id : DatasetId) (e : ElementType) (dims : List Nat) (a b : Archive) : Prop where
  left : a.Holds id e dims
  right : b.mounted.Ready
  tree : b.tree = a.tree

/-- An index that is beyond the first extent. -/
def Beyond (leadDims lead : List Nat) : Prop :=
  ∃ n i, leadDims.head? = some n ∧ lead.head? = some i ∧ n ≤ i ∧ IsWord (i + 1)

namespace Paired

theorem dataset_eq (h : Paired id e dims a b) : b.dataset id = a.dataset id :=
  congrArg (·.dataset id) h.tree

theorem holds (h : Paired id e dims a b) : b.Holds id e dims where
  ready := h.right
  known := h.tree ▸ h.left.known
  type := h.dataset_eq ▸ h.left.type
  dims_eq := h.dataset_eq ▸ h.left.dims_eq

theorem overwrote (h : Paired id e dims a b) (left : Overwrote a id cells values a')
    (right : Overwrote b id cells values b') : Paired id e dims a' b' where
  left := left.holds h.left
  right := right.ready
  tree := by rw [left.tree, right.tree, h.dataset_eq, h.tree]

variable (operation : String) {leadDims lead room : List Nat} (two : room.length = 2)
  (length : lead.length = leadDims.length)

include two length

/-- A matrix that is put row by row, and its transpose that is put at once. -/
theorem putMatrix (h : Paired id e (leadDims ++ room) a b) {m : Matrix e.Value}
    (place : Inside leadDims lead ∨ Beyond leadDims lead ∧ 0 < m.rows) :
    Alongside (Paired id e (leadDims ++ room)) (putMatrix id operation lead m false)
      (Archive.putMatrix id operation lead m.transpose true) a b := by
  have rest : (a.dataset id).dims.drop lead.length = room := by
    rw [h.left.dims_eq, length, List.drop_left]
  have rest' : (b.dataset id).dims.drop lead.length = room := h.dataset_eq ▸ rest
  by_cases shape : room = diskShape m false
  · subst shape
    rcases place with inside | ⟨⟨n, i, first, index, beyond, word⟩, rowed⟩
    · have left := ends_putMatrix_cells operation inside h.left
        (m := m) (t := false) rfl
      have right := ends_putMatrix_cells operation inside h.holds
        (m := m.transpose) (t := true) rfl
      have cells : TypedRead.unfolded true m.transpose = TypedRead.unfolded false m :=
        MatrixValue.unfolded_transpose m false
      rw [cells] at right
      exact .of_ends left right fun a' b' => h.overwrote
    · obtain ⟨leadDims', rfl⟩ := List.head?_eq_some_iff.1 first
      obtain ⟨lead', rfl⟩ := List.head?_eq_some_iff.1 index
      have inner : (leadDims' ++ diskShape m false).drop lead'.length = diskShape m false := by
        rw [Nat.succ.inj length, List.drop_left]
      have left := putMatrix_beyond operation h.left.dims_eq inner beyond word
        fun _ => rowed
      have right := putMatrix_beyond operation (m := m.transpose) (t := true)
        h.holds.dims_eq inner beyond word nofun
      rw [h.dataset_eq] at right
      exact .together (.error left right h)
  · have left := putMatrix_misfit operation rest shape
    have right := putMatrix_misfit operation (m := m.transpose) (t := true) rest'
      shape
    rw [h.dataset_eq] at right
    exact .together (.error left right h)

theorem putEach {depth k : Nat} {ms : List (Matrix e.Value)}
    (h : Paired id e (leadDims ++ depth :: room) a b) (low : k + ms.length ≤ depth)
    (place : Inside leadDims lead ∨ Beyond leadDims lead ∧ ∀ m ∈ ms, 0 < m.rows) :
    Alongside (Paired id e (leadDims ++ depth :: room)) (putEach id operation lead false k ms)
      (Archive.putEach id operation lead true k (ms.map Matrix.transpose)) a b := by
  induction ms generalizing a b k with
  | nil => exact .together (together_pure h)
  | cons m ms ih =>
    rw [List.length_cons] at low
    have assoc : leadDims ++ depth :: room = (leadDims ++ [depth]) ++ room := by simp
    have here : Inside (leadDims ++ [depth]) (lead ++ [k]) ∨
        Beyond (leadDims ++ [depth]) (lead ++ [k]) ∧ 0 < m.rows := by
      rcases place with inside | ⟨⟨n, i, first, index, beyond⟩, rowed⟩
      · exact .inl (List.rel_append inside (.cons (by omega) .nil))
      · refine .inr ⟨⟨n, i, ?_, ?_, beyond⟩, rowed m List.mem_cons_self⟩
        · rw [List.head?_append, first]
          rfl
        · rw [List.head?_append, index]
          rfl
    have paired : Paired id e ((leadDims ++ [depth]) ++ room) a b := assoc ▸ h
    have first := paired.putMatrix operation two (by simp [length]) here
    rw [← assoc] at first
    refine first.bind fun _ a' b' h' => ih h' (by omega) ?_
    exact place.imp_right fun out => ⟨out.1, fun m mem => out.2 m (List.mem_cons_of_mem _ mem)⟩

theorem putMatrices {depth : Nat} {ms : List (Matrix e.Value)}
    (h : Paired id e (leadDims ++ depth :: room) a b)
    (place : Inside leadDims lead ∨ Beyond leadDims lead ∧ ∀ m ∈ ms, 0 < m.rows) :
    Alongside (Paired id e (leadDims ++ depth :: room)) (putMatrices id operation lead ms false)
      (Archive.putMatrices id operation lead (ms.map Matrix.transpose) true) a b := by
  have extent : (a.dataset id).dims[lead.length]?.getD 0 = depth := by
    rw [h.left.dims_eq, length, List.getElem?_append_right (Nat.le_refl _), Nat.sub_self]
    rfl
  unfold Archive.putMatrices
  refine .get ?_
  simp only [h.dataset_eq, extent, List.length_map]
  by_cases count : ms.length = depth
  · simp only [count, if_true]
    exact putEach operation two length h (by omega) place
  · simp only [count, if_false]
    exact .together (together_throw h)

end Paired

/-- A dataset that is not found, or is another one, is refused with an answer. -/
theorem answers_lookupTyped {path : Path} {operation : String} {rank : Nat} {err : StorageError}
    (h : a.lookupTyped path operation rank e = .error err) : err.isOverflow = false := by
  have refused {c : Prop} [Decidable c] {err' : StorageError} (answer : err'.isOverflow = false)
      (h : (if c then .ok () else .error err' : Except StorageError Unit) = .error err) :
      err.isOverflow = false := by
    split at h
    · cases h
    · cases h
      exact answer
  rcases error_of_bind_eq_error h with h | ⟨id, -, h⟩
  · rcases error_of_bind_eq_error h with h | ⟨id, -, h⟩
    · unfold lookup Tree.openDataset at h
      split at h
      · cases h
      · split at h <;> cases h
        rfl
    · rcases error_of_bind_eq_error h with h | ⟨_, -, h⟩
      · exact refused rfl h
      · cases h
  · rcases error_of_bind_eq_error h with h | ⟨_, -, h⟩
    · exact refused rfl h
    · cases h

/-- What is done, in two ways, with a dataset that is found. -/
theorem alongside_find (coherent : a.Coherent) {path : Path} {operation : String} {rank : Nat}
    {next next' : DatasetId → Action Unit}
    (each : ∀ id dims, a.tree.denoted? path = some id → dims.length = rank →
      Paired id e dims a a → Alongside (Paired id e dims) (next id) (next' id) a a) :
    Alongside (fun a b => b.tree = a.tree) (find path operation rank e >>= next)
      (find path operation rank e >>= next') a a := by
  unfold find
  simp only [bind_assoc]
  refine .get ?_
  cases found : a.lookupTyped path operation rank e with
  | error err => exact .together (together_throw rfl)
  | ok id =>
    obtain ⟨denotes, type, axes⟩ := coherent.of_lookupTyped found
    have known := coherent.ready.sound.lt_of_denoted? denotes
    have here : a.Holds id e (a.dataset id).dims := ⟨coherent.ready, known, type, rfl⟩
    exact (each id _ denotes axes ⟨here, coherent.ready, rfl⟩).mono fun _ _ paired => paired.tree

end Archive

namespace MatrixValue

open Archive

variable {a : Archive} {path : Path} {id : DatasetId} {e : ElementType} {v : MatrixValue e}

/-- Every matrix has a row. -/
def Rowed (v : MatrixValue e) : Prop := ∀ m ∈ v.matrices, 0 < m.rows

/-- The index, if there is one, is below the first extent. -/
def Within (v : MatrixValue e) (d : Dataset) : Prop := ∀ i ∈ v.lead, i < d.rows

/-- Matrices are written alike row by row and transposed at once, if their index is within the
extent or all of them have rows. -/
theorem alongside_write (coherent : a.Coherent) (word : ∀ i ∈ v.lead, IsWord (i + 1))
    (place : v.Rowed ∨ ∀ id, a.tree.denoted? path = some id → v.Within (a.dataset id)) :
    Alongside (fun a b => b.tree = a.tree) (v.write path false).run
      (v.transpose.write path true).run a a := by
  have placed {id : DatasetId} {n index : Nat} {tail : List Nat}
      (denotes : a.tree.denoted? path = some id) (eq : (a.dataset id).dims = n :: tail)
      (lead : v.lead = [index]) :
      Inside [n] [index] ∨ Beyond [n] [index] ∧ v.Rowed := by
    rcases Nat.lt_or_ge index n with low | beyond
    · exact .inl (.cons low .nil)
    · have word := word index (lead ▸ List.mem_cons_self)
      refine .inr ⟨⟨n, index, rfl, rfl, beyond, word⟩, place.resolve_right fun within => ?_⟩
      have low := within id denotes index (lead ▸ List.mem_cons_self)
      rw [Dataset.rows, eq] at low
      exact absurd low (Nat.not_lt.2 beyond)
  cases v with
  | whole m =>
    refine alongside_find coherent fun id dims _ two paired => ?_
    exact paired.putMatrix _ two (rfl : [].length = [].length) (.inl .nil)
  | single index m =>
    refine alongside_find coherent fun id dims denotes three paired => ?_
    obtain ⟨n, room, rfl⟩ := List.exists_cons_of_length_eq_add_one three
    have level : [index].length = [n].length := rfl
    refine paired.putMatrix _ (Nat.succ.inj three) level ?_
    exact (placed denotes paired.left.dims_eq rfl).imp_right fun out =>
      ⟨out.1, out.2 m List.mem_cons_self⟩
  | list index ms =>
    refine alongside_find coherent fun id dims denotes four paired => ?_
    obtain ⟨n, tail, rfl⟩ := List.exists_cons_of_length_eq_add_one four
    obtain ⟨depth, room, rfl⟩ := List.exists_cons_of_length_eq_add_one (Nat.succ.inj four)
    have level : [index].length = [n].length := rfl
    refine paired.putMatrices _ (Nat.succ.inj (Nat.succ.inj four)) level ?_
    exact placed denotes paired.left.dims_eq rfl

/-- Beyond the extent, matrices are refused: transposed in any case, row by row if they have
rows. -/
theorem refused_beyond (coherent : a.Coherent) (denotes : a.tree.denoted? path = some id)
    (word : ∀ i ∈ v.lead, IsWord (i + 1)) (beyond : ¬v.Within (a.dataset id))
    (some : v.matrices ≠ []) {t : Bool} (rowed : t = false → v.Rowed) :
    Ends (v.write path t).run a (fun _ _ => False) (fun err _ => err.isOverflow = false) := by
  have refuses {x : Action Unit} {err : StorageError} (ran : x a = .error err a)
      (answer : err.isOverflow = false) :
      Ends x a (fun _ _ => False) (fun err _ => err.isOverflow = false) :=
    ends_of_forall (fun _ _ ok => by cases ran.symm.trans ok) fun _ _ failed => by
      cases ran.symm.trans failed
      exact answer
  have puts {operation : String} {n index : Nat} {tail lead : List Nat} {m : Matrix e.Value}
      (eq : (a.dataset id).dims = n :: tail) (out : n ≤ index ∧ IsWord (index + 1))
      (rows : t = false → 0 < m.rows) :
      Ends (putMatrix id operation (index :: lead) m t) a (fun _ _ => False)
        (fun err _ => err.isOverflow = false) := by
    by_cases room : tail.drop lead.length = diskShape m t
    · exact refuses (putMatrix_beyond _ eq room out.1 out.2 rows) rfl
    · exact refuses (putMatrix_misfit _ (by rw [eq]; rfl) room) rfl
  have out {n index : Nat} {tail : List Nat} (eq : (a.dataset id).dims = n :: tail)
      (lead : v.lead = [index]) : n ≤ index ∧ IsWord (index + 1) := by
    refine ⟨Nat.le_of_not_lt fun low => beyond fun i mem => ?_,
      word index (lead ▸ List.mem_cons_self)⟩
    rw [lead, List.mem_singleton] at mem
    rw [mem, Dataset.rows, eq]
    exact low
  cases v with
  | whole m => exact absurd (fun i mem => by cases mem) beyond
  | single index m =>
    refine ends_find_or coherent denotes (fun _ => answers_lookupTyped) fun _ three => ?_
    obtain ⟨n, room, eq⟩ := List.exists_cons_of_length_eq_add_one three
    exact puts eq (out eq rfl) fun straight => rowed straight m List.mem_cons_self
  | list index ms =>
    refine ends_find_or coherent denotes (fun _ => answers_lookupTyped) fun _ four => ?_
    obtain ⟨n, tail, eq⟩ := List.exists_cons_of_length_eq_add_one four
    obtain ⟨m, rest, rfl⟩ := List.exists_cons_of_ne_nil some
    refine ends_bind.2 (ends_get.2 (ends_ite.2 ⟨fun _ => ?_, fun _ => ends_bind.2
      (ends_throw.2 rfl)⟩))
    refine ends_bind.2 ((puts eq (out eq rfl) fun straight =>
      rowed straight m List.mem_cons_self).mono ?_ fun _ _ bad => bad)
    exact fun _ _ never => never.elim

/-- Writing matrices row by row and writing their transposes at once come to the same, whatever
dataset it is and whatever fails, if only a record without a frame is not the reason: the same
result, and one and the same tree.  That is so if the index is within the extent, or if all the
matrices have rows; and then an index beyond the extent is refused in both ways, and with an
answer. -/
theorem writes_alike (coherent : a.Coherent) (word : ∀ i ∈ v.lead, IsWord (i + 1))
    (place : v.Rowed ∨ ∀ id, a.tree.denoted? path = some id → v.Within (a.dataset id)) :
    Alongside (fun a b => b.tree = a.tree) (v.write path false).run
        (v.transpose.write path true).run a a ∧
      ∀ id, a.tree.denoted? path = some id → ¬v.Within (a.dataset id) → v.matrices ≠ [] →
        (∃ err a', (v.write path false).run a = .error err a' ∧ err.isOverflow = false) ∧
        ∃ err a', (v.transpose.write path true).run a = .error err a' ∧
          err.isOverflow = false := by
  refine ⟨alongside_write coherent word place, fun id denotes beyond some => ?_⟩
  have rowed := place.resolve_right fun within => beyond (within id denotes)
  have fails {x : Action Unit}
      (never : Ends x a (fun _ _ => False) (fun err _ => err.isOverflow = false)) :
      ∃ err a', x a = .error err a' ∧ err.isOverflow = false := by
    cases ran : x a with
    | ok v a' => exact (never.good_of_eq ran).elim
    | error err a' => exact ⟨err, a', rfl, never.bad_of_eq ran⟩
  refine ⟨fails (refused_beyond coherent denotes word beyond some fun _ => rowed), ?_⟩
  refine fails (refused_beyond coherent denotes ?_ ?_ ?_ nofun)
  · rwa [lead_transpose]
  · rwa [Within, lead_transpose]
  · rw [matrices_transpose]
    exact fun none => some (List.map_eq_nil_iff.1 none)

/-- Two lines, for a place that is not there. -/
def lines : MatrixValue .real :=
  .list 5 [.filled 1 2 .nan, .filled 1 2 .zero]

theorem writes_alike_of_lines : ∃ a, withTable [2, 2, 1, 2] = some a ∧ a.Coherent ∧ lines.Rowed ∧
    a.tree.denoted? (.ofText "/t") = some 0 ∧ ¬lines.Within (a.dataset 0) ∧
    Alongside (fun a b => b.tree = a.tree) (lines.write (.ofText "/t") false).run
      (lines.transpose.write (.ofText "/t") true).run a a ∧
    (∃ err a', (lines.write (.ofText "/t") false).run a = .error err a' ∧
      err.isOverflow = false) ∧
    ∃ err a', (lines.transpose.write (.ofText "/t") true).run a = .error err a' ∧
      err.isOverflow = false := by
  have ready : (withTable [2, 2, 1, 2]).any (fun a =>
      a.tree.denoted? (.ofText "/t") = some 0 ∧ (a.dataset 0).rows = 2) := by decide +kernel
  obtain ⟨a, made, ready⟩ := (Option.any_eq_true ..).1 ready
  obtain ⟨denotes, rows⟩ := of_decide_eq_true ready
  have coherent := coherent_of_withTable made
  have rowed : lines.Rowed := by simp [Rowed, lines, matrices, Matrix.filled]
  have beyond : ¬lines.Within (a.dataset 0) := by simp [Within, lines, lead, rows]
  have place : lines.Rowed ∨ ∀ id, a.tree.denoted? (.ofText "/t") = some id →
      lines.Within (a.dataset id) := .inl rowed
  have word : ∀ i ∈ lines.lead, IsWord (i + 1) := by decide
  obtain ⟨alongside, refused⟩ := writes_alike coherent word place
  exact ⟨a, made, coherent, rowed, denotes, beyond, alongside,
    refused 0 denotes beyond (by simp [lines, matrices])⟩

/-- A matrix without rows, for a place that is not there. -/
def rowless : MatrixValue .real := .single 5 (.filled 0 3 .zero)

/-- Row by row, nothing of it is put, and nothing refused. -/
theorem rowless_accepted_beyond : ∃ a, withTable [2, 0, 3] = some a ∧ a.Coherent ∧
    a.dims (.ofText "/t") = .ok [2, 0, 3] ∧
    outcome ((rowless.write (.ofText "/t") false).run a) = .ok () ∧
    outcome ((rowless.transpose.write (.ofText "/t") true).run a) =
      .error (.invalidIndex (.ofText "/t") "set_matrix" 5 2) := by
  have ready : (withTable [2, 0, 3]).any (fun a => a.dims (.ofText "/t") = .ok [2, 0, 3] ∧
      outcome ((rowless.write (.ofText "/t") false).run a) = .ok () ∧
      outcome ((rowless.transpose.write (.ofText "/t") true).run a) =
        .error (.invalidIndex (.ofText "/t") "set_matrix" 5 2)) := by decide +kernel
  obtain ⟨a, made, ready⟩ := (Option.any_eq_true ..).1 ready
  obtain ⟨dims, straight, transposed⟩ := of_decide_eq_true ready
  exact ⟨a, made, coherent_of_withTable made, dims, straight, transposed⟩

end MatrixValue
end StudyArchive
