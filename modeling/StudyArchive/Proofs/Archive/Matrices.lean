import StudyArchive.Proofs.Archive.Rows
/-
# Setting a list of matrices

A row of matrices is written one matrix row after the other.  `Dataset.Fills` says which cells of
the row are written so far; each put adds the cells of one matrix row to them.
-/

namespace StudyArchive

namespace Dataset

variable {d d' : Dataset} {i : Nat} {f g : Nat → Nat → Nat → Option Datum}
  {depth height width : Nat}

/-- A dataset of rows of matrices in which some cells of a row were written. -/
structure Fills (d : Dataset) (depth height width : Nat) (i : Nat)
    (f : Nat → Nat → Nat → Option Datum) (d' : Dataset) : Prop where
  touched : Touched d i d'
  cells : ∀ k r c, k < depth → r < height → c < width →
    d'.cell [i, k, r, c] = (f k r c).getD (d.cell [i, k, r, c])

theorem Fills.none (d : Dataset) (depth height width : Nat) (i : Nat) :
    Fills d depth height width i (fun _ _ _ => none) d := ⟨.refl d i, fun _ _ _ _ _ _ => rfl⟩

/-- What is written later stands over what was written before. -/
theorem Fills.trans {d'' : Dataset} (h : Fills d depth height width i f d')
    (h' : Fills d' depth height width i g d'') :
    Fills d depth height width i (fun k r c => g k r c <|> f k r c) d'' := by
  refine ⟨h.touched.trans h'.touched, fun k r c hk hr hc => ?_⟩
  rw [h'.cells k r c hk hr hc, h.cells k r c hk hr hc]
  cases g k r c <;> rfl

theorem Fills.congr (h : Fills d depth height width i f d')
    (same : ∀ k r c, k < depth → r < height → c < width → f k r c = g k r c) :
    Fills d depth height width i g d' :=
  ⟨h.touched, fun k r c hk hr hc => by rw [h.cells k r c hk hr hc, same k r c hk hr hc]⟩

theorem cells_matrixRow (i k r width : Nat) :
    (Selection.mk [i, k, r, 0] [1, 1, 1, width]).cells =
      (List.range width).map fun c => [i, k, r, c] := by
  rw [Selection.cells_eq_tuples _ rfl]
  simp [Selection.tuples, List.map_eq_flatMap, List.flatMap_assoc]

theorem fills_of_write {n : Nat} (sound : d.Sound) (dims : d.dims = [n, depth, height, width])
    {operation : String} {k r : Nat} {values : List Datum}
    (h : d.write operation ⟨[i, k, r, 0], [1, 1, 1, width]⟩ values = .ok d') :
    Fills d depth height width i
      (fun k' r' c => if k' = k ∧ r' = r then values[c]? else none) d' := by
  have cells := cells_matrixRow i k r width
  have count := (write_eq_ok h).2.1
  rw [cells, List.length_map, List.length_range] at count
  refine ⟨touched_of_write sound dims (fun index mem => ?_) h, fun k' r' c hk hr hc => ?_⟩
  · rw [cells] at mem
    obtain ⟨c, -, rfl⟩ := List.mem_map.1 mem
    rfl
  · split
    · next same =>
      obtain ⟨rfl, rfl⟩ := same
      have index : (Selection.mk [i, k', r', 0] [1, 1, 1, width]).cells[c]? =
          some [i, k', r', c] := by simp [cells, hc]
      have value := List.getElem?_eq_getElem (count ▸ hc)
      rw [value]
      exact cell_of_write sound.toChunked h index value
    · next apart =>
      have inside : Inside [depth, height, width] [k', r', c] := .cons hk (.cons hr (.cons hc .nil))
      refine cell_of_write_of_not_mem sound.toChunked h (spans_cons dims inside) fun mem => ?_
      rw [cells] at mem
      obtain ⟨c', -, same⟩ := List.mem_map.1 mem
      simp only [List.cons.injEq, true_and] at same
      exact apart ⟨same.1.symm, same.2.1.symm⟩

/-- A matrix row is accepted in place of one that is there. -/
theorem exists_write_matrixRow {n : Nat} (dims : d.dims = [n, depth, height, width])
    {operation : String} {k r : Nat} {values : List Datum} (hi : i < n) (hk : k < depth)
    (hr : r < height) (length : values.length = width) :
    ∃ d', d.write operation ⟨[i, k, r, 0], [1, 1, 1, width]⟩ values = .ok d' := by
  refine exists_write_eq_ok (checkSelection_eq_ok_of (by simp [rank, dims]) (by simp [rank, dims])
    ?_) ?_
  · rw [dims]
    exact .cons hi (.cons hk (.cons hr (.cons (by simp) .nil)))
  · rw [cells_matrixRow, List.length_map, List.length_range, length]

end Dataset

namespace Archive

open Dataset

variable {a : Archive} {path : Path} {id : DatasetId} {d : Dataset} {e : ElementType}
  {depth height width : Nat}

/-- Rows that are put from a matrix row on. -/
def rowsFrom (k₀ r₀ : Nat) (rows : List (List e.Value)) (k r c : Nat) : Option Datum :=
  if k = k₀ ∧ r₀ ≤ r then rows[r - r₀]?.bind fun row => row[c]?.map e.toDatum else none

theorem ends_putRows (sound : a.Sound) (found : a.at? path = some d)
    (node : a.tree.nodes.get? path = some (.dataset id))
    (table : d.IsTable e [depth, height, width]) {operation : String} {i k r₀ : Nat}
    {rows : List (List e.Value)} (hi : i < d.rows) (hk : k < depth)
    (fits : r₀ + rows.length ≤ height) (wide : ∀ row ∈ rows, row.length = width) :
    Ends (putRows id operation [i, k] width r₀ rows) a
      (fun _ => TurnsInto a path (Touched d i) (Fills d depth height width i (rowsFrom k r₀ rows)))
      (fun err a' => err.isUnencodable ∧ ∃ d', Touched d i d' ∧ Turned a path d' a') := by
  induction rows generalizing a d r₀ with
  | nil =>
    refine ends_pure.2 (.refl sound found ((Fills.none d ..).congr fun k' r c _ _ _ => ?_))
    simp [rowsFrom]
  | cons values rest ih =>
    rw [List.length_cons] at fits
    obtain ⟨d₁, written⟩ : ∃ d₁, d.write operation ⟨[i, k, r₀, 0], [1, 1, 1, width]⟩
        (values.map e.toDatum) = .ok d₁ :=
      exists_write_matrixRow table.dims hi hk (by omega)
        (by rw [List.length_map]; exact wide values (List.mem_cons_self ..))
    have filled := fills_of_write (sound.sound_of_at? found) table.dims written
    have table₁ := table.grows filled.touched.grows
    have rows_eq : d₁.rows = d.rows := by simp [Dataset.rows, filled.touched.dims]
    unfold putRows
    refine ends_bind.2 ((ends_put sound found node table.type written).mono ?_ ?_)
    · rintro _ a₁ ⟨recorded, turned⟩
      have node₁ : a₁.tree.nodes.get? path = some (.dataset id) := by rw [turned.nodes, node]
      refine (ih turned.sound turned.here node₁ table₁ (rows_eq ▸ hi) (by omega)
        fun row mem => wide row (List.mem_cons_of_mem _ mem)).mono ?_ ?_
      · intro _ a₂ rest₂
        refine rest₂.after turned (.single recorded ⟨d₁, filled.touched, turned⟩)
          (fun _ => filled.touched.trans) fun d₂ filled₂ =>
            (filled.trans filled₂).congr fun k' r c _ _ _ => ?_
        unfold rowsFrom
        rcases Nat.lt_trichotomy r r₀ with low | rfl | high
        · simp [show ¬ r₀ ≤ r by omega, show ¬ r₀ + 1 ≤ r by omega, show r ≠ r₀ by omega]
        · simp [show ¬ r + 1 ≤ r by omega]
        · have index : r - r₀ = (r - (r₀ + 1)) + 1 := by omega
          simp [show r₀ ≤ r by omega, show r₀ + 1 ≤ r by omega, show r ≠ r₀ by omega, index]
      · rintro err a₂ ⟨unencodable, d₂, touched, turned₂⟩
        exact ⟨unencodable, d₂, filled.touched.trans touched, turned.trans turned₂⟩
    · rintro err a₁ ⟨unencodable, turned⟩
      exact ⟨unencodable, d₁, filled.touched, turned⟩

/-- Matrices that are put from a place on. -/
def matricesFrom (k₀ : Nat) (matrices : List (Matrix e.Value)) (k r c : Nat) : Option Datum :=
  if k₀ ≤ k then matrices[k - k₀]?.bind fun m => (m.get? r c).map e.toDatum else none

theorem getElem?_rowList_bind (m : Matrix e.Value) (r c : Nat) :
    (m.rowList[r]?.bind fun row => row[c]?.map e.toDatum) = (m.get? r c).map e.toDatum := by
  cases found : m.get? r c with
  | some v =>
    obtain ⟨row, at_, value⟩ := Matrix.getElem?_rowList found
    simp [at_, value]
  | none =>
    cases at_ : m.rowList[r]? with
    | none => rfl
    | some row =>
      have low : r < m.rows := m.length_rowList ▸ (List.getElem?_eq_some_iff.1 at_).1
      have wide := m.length_of_mem_rowList (List.mem_of_getElem? at_)
      have beyond : row.length ≤ c := by
        by_contra short
        obtain ⟨v, some_⟩ := Matrix.exists_get? low (wide ▸ Nat.lt_of_not_le short)
        rw [found] at some_
        cases some_
      simp [List.getElem?_eq_none beyond]

theorem ends_putEach (sound : a.Sound) (found : a.at? path = some d)
    (node : a.tree.nodes.get? path = some (.dataset id))
    (table : d.IsTable e [depth, height, width]) {operation : String} {i k₀ : Nat}
    {matrices : List (Matrix e.Value)} (hi : i < d.rows) (fits : k₀ + matrices.length ≤ depth)
    (shapes : ∀ m ∈ matrices, m.rows = height ∧ m.cols = width) :
    Ends (putEach id operation [i] false k₀ matrices) a
      (fun _ => TurnsInto a path (Touched d i)
        (Fills d depth height width i (matricesFrom k₀ matrices)))
      (fun err a' => err.isUnencodable ∧ ∃ d', Touched d i d' ∧ Turned a path d' a') := by
  induction matrices generalizing a d k₀ with
  | nil =>
    refine ends_pure.2 (.refl sound found ((Fills.none d ..).congr fun k r c _ _ _ => ?_))
    simp [matricesFrom]
  | cons m rest ih =>
    rw [List.length_cons] at fits
    obtain ⟨rfl, rfl⟩ := shapes m (List.mem_cons_self ..)
    have dataset : a.dataset id = d := (Container.dataset_eq_of_node node found).1
    have room : d.dims.drop ([i] ++ [k₀]).length = diskShape m false := by
      rw [table.dims]
      rfl
    unfold putEach putMatrix
    simp only [ends_bind, ends_get, dataset, room, if_true, Bool.false_eq_true, if_false]
    refine (ends_putRows sound found node table hi (by omega)
      (by rw [m.length_rowList, Nat.zero_add]) fun row mem => m.length_of_mem_rowList mem).mono
      ?_ ?_
    · rintro _ a₁ ⟨⟨d₁, filled, turned⟩, way⟩
      have node₁ : a₁.tree.nodes.get? path = some (.dataset id) := by rw [turned.nodes, node]
      have rows_eq : d₁.rows = d.rows := by simp [Dataset.rows, filled.touched.dims]
      refine (ih turned.sound turned.here node₁ (table.grows filled.touched.grows) (rows_eq ▸ hi)
        (by omega) fun m mem => shapes m (List.mem_cons_of_mem _ mem)).mono ?_ ?_
      · intro _ a₂ rest₂
        refine rest₂.after turned way (fun _ => filled.touched.trans) fun d₂ filled₂ =>
          (filled.trans filled₂).congr fun k r c _ _ _ => ?_
        unfold matricesFrom rowsFrom
        -- Before the first matrix, in it, and in those that follow.
        rcases Nat.lt_trichotomy k k₀ with low | rfl | high
        · simp [show ¬ k₀ ≤ k by omega, show ¬ k₀ + 1 ≤ k by omega, show k ≠ k₀ by omega]
        · simp [show ¬ k + 1 ≤ k by omega, getElem?_rowList_bind]
        · have index : k - k₀ = (k - (k₀ + 1)) + 1 := by omega
          simp [show k₀ ≤ k by omega, show k₀ + 1 ≤ k by omega, show k ≠ k₀ by omega, index]
      · rintro err a₂ ⟨unencodable, d₂, touched, turned₂⟩
        exact ⟨unencodable, d₂, filled.touched.trans touched, turned.trans turned₂⟩
    · rintro err a₁ bad
      exact bad

/-- Setting a list of matrices: entry by entry, each matrix is where it belongs. -/
theorem ends_setMatrices (sound : a.Sound) (found : a.at? path = some d)
    {matrices : List (Matrix e.Value)} (table : d.IsTable e [matrices.length, height, width])
    {i : Nat} (hi : i < d.rows) (shapes : ∀ m ∈ matrices, m.rows = height ∧ m.cols = width) :
    Ends (setMatrices path e matrices i false) a
      (fun _ => TurnsInto a path (Touched d i) fun d' => Touched d i d' ∧
        ∀ k m r c v, matrices[k]? = some m → m.get? r c = some v →
          d'.cell [i, k, r, c] = e.toDatum v)
      (fun err a' => err.isUnencodable ∧ ∃ d', Touched d i d' ∧ Turned a path d' a') := by
  unfold setMatrices
  refine ends_bind.2 (ends_find sound found table.type table.rank fun id node dataset => ?_)
  have extent : d.dims[[i].length]?.getD 0 = matrices.length := by
    rw [table.dims]
    rfl
  unfold putMatrices
  simp only [ends_bind, ends_get, dataset, extent, if_true]
  refine (ends_putEach sound found node table hi (by omega) shapes).mono ?_ fun _ _ bad => bad
  refine fun _ a' turns => turns.mono fun d' filled =>
    ⟨filled.touched, fun k m r c v at_ value => ?_⟩
  obtain ⟨rfl, rfl⟩ := shapes m (List.mem_of_getElem? at_)
  obtain ⟨low, wide⟩ := Matrix.lt_of_get? value
  rw [filled.cells k r c (List.getElem?_eq_some_iff.1 at_).1 low wide]
  simp [matricesFrom, at_, value]

end Archive
end StudyArchive
