import Mathlib.Data.List.OfFn
import StudyArchive.Matrix
import StudyArchive.Proofs.Step
/-
# Entries of matrices

Where `Matrix.get?` finds an entry in the lists that a matrix is written from, and what becomes of
these lists when rows and columns are exchanged, and of the entries when one of them is replaced.
A row or a column is what a loop over its entries finds, and equally long rows make a matrix that
has them.
-/

namespace StudyArchive.Matrix

variable {α β : Type} {m : Matrix α} {r c : Nat} {v : α}

theorem get?_eq_cell (row : r < m.rows) (col : c < m.cols) :
    m.get? r c = some (m.cell ⟨r, row⟩ ⟨c, col⟩) := dif_pos ⟨row, col⟩

theorem get?_eq_none (out : ¬(r < m.rows ∧ c < m.cols)) : m.get? r c = none := dif_neg out

theorem lt_of_get? (h : m.get? r c = some v) : r < m.rows ∧ c < m.cols := by
  by_contra out
  cases (get?_eq_none out).symm.trans h

theorem exists_get? (row : r < m.rows) (col : c < m.cols) : ∃ v, m.get? r c = some v :=
  ⟨_, get?_eq_cell row col⟩

/-- The buffer holds the columns one after the other. -/
theorem getElem?_toColumnMajor (h : m.get? r c = some v) :
    m.toColumnMajor[c * m.rows + r]? = some v := by
  obtain ⟨row, col⟩ := lt_of_get? h
  have inside : c * m.rows + r < m.data.size := m.size_data ▸ place_lt ⟨c, col⟩ ⟨r, row⟩
  rw [get?_eq_cell row col] at h
  rw [toColumnMajor, Array.getElem?_toList, Array.getElem?_eq_getElem inside]
  exact h

theorem isSome_get?_iff : (m.get? r c).isSome ↔ r < m.rows ∧ c < m.cols := by
  constructor
  · intro found
    obtain ⟨v, entry⟩ := Option.isSome_iff_exists.1 found
    exact lt_of_get? entry
  · rintro ⟨row, col⟩
    obtain ⟨v, entry⟩ := m.exists_get? row col
    rw [entry]
    rfl

/-- An entry is looked up at its place in the buffer. -/
theorem get?_eq_getElem? (row : r < m.rows) (col : c < m.cols) :
    m.get? r c = m.data[c * m.rows + r]? := by
  obtain ⟨v, entry⟩ := exists_get? row col
  rw [entry, ← Array.getElem?_toList]
  exact (getElem?_toColumnMajor entry).symm

theorem length_toColumnMajor (m : Matrix α) : m.toColumnMajor.length = m.cols * m.rows := by
  rw [toColumnMajor, Array.length_toList, m.size_data]

theorem length_rowList (m : Matrix α) : m.rowList.length = m.rows := by simp [rowList]

theorem length_columnList (m : Matrix α) : m.columnList.length = m.cols := by simp [columnList]

theorem length_of_mem_rowList {row : List α} (mem : row ∈ m.rowList) : row.length = m.cols := by
  obtain ⟨i, rfl⟩ := (List.mem_ofFn' _ _).1 mem
  simp [Matrix.row]

theorem getElem?_row (m : Matrix α) (low : r < m.rows) (c : Nat) :
    (m.row ⟨r, low⟩)[c]? = m.get? r c := by
  rw [Matrix.row, List.getElem?_ofFn, get?]
  by_cases col : c < m.cols <;> simp [low, col]

theorem getElem?_column (m : Matrix α) (col : c < m.cols) (r : Nat) :
    (m.column ⟨c, col⟩)[r]? = m.get? r c := by
  rw [column, List.getElem?_ofFn, get?]
  by_cases low : r < m.rows <;> simp [low, col]

theorem getElem?_rowList (h : m.get? r c = some v) :
    ∃ row, m.rowList[r]? = some row ∧ row[c]? = some v := by
  obtain ⟨low, col⟩ := lt_of_get? h
  exact ⟨m.row ⟨r, low⟩, by simp [rowList, low], (m.getElem?_row low c).trans h⟩

/-- The entries of a matrix are the ones that it was given. -/
theorem get?_ofFn {rows cols : Nat} {f : Fin rows → Fin cols → α} (row : r < rows)
    (col : c < cols) : (ofFn rows cols f).get? r c = some (f ⟨r, row⟩ ⟨c, col⟩) := by
  have inside : c * rows + r < cols * rows := place_lt ⟨c, col⟩ ⟨r, row⟩
  have pos : 0 < rows := Nat.zero_lt_of_lt row
  have rowOf_eq : (rowOf ⟨c * rows + r, inside⟩ : Fin rows) = ⟨r, row⟩ := by
    simp only [rowOf, Fin.mk.injEq]
    rw [Nat.mul_add_mod_self_right, Nat.mod_eq_of_lt row]
  have colOf_eq : (colOf ⟨c * rows + r, inside⟩ : Fin cols) = ⟨c, col⟩ := by
    simp only [colOf, Fin.mk.injEq]
    rw [Nat.mul_comm, Nat.mul_add_div pos, Nat.div_eq_of_lt row, Nat.add_zero]
  rw [get?_eq_cell row col]
  simp only [cell, ofFn, Array.getElem_ofFn]
  rw [rowOf_eq, colOf_eq]

/-- The cells of a matrix are the ones that it was given. -/
theorem cell_ofFn {rows cols : Nat} {f : Fin rows → Fin cols → α} (r : Fin rows) (c : Fin cols) :
    (ofFn rows cols f).cell r c = f r c :=
  Option.some.inj ((get?_eq_cell r.isLt c.isLt).symm.trans (get?_ofFn r.isLt c.isLt))

/-- A matrix that is made of cells row after row has them so. -/
theorem exists_ofRowMajor {rows cols : Nat} {data : List α} (size : data.length = rows * cols) :
    ∃ m : Matrix α, ofRowMajor? rows cols data.toArray = some m ∧ m.toRowMajor = data := by
  have size' : data.toArray.size = rows * cols := by simpa using size
  refine ⟨_, dif_pos size', ?_⟩
  have flat : data = List.ofFn fun i : Fin (rows * cols) => data.get ⟨i, size.symm ▸ i.isLt⟩ := by
    refine List.ext_getElem (by simp [size]) ?_
    intro i low low'
    rw [List.getElem_ofFn, List.get_eq_getElem]
  conv_rhs => rw [flat, List.ofFn_mul]
  unfold toRowMajor rowList row
  refine congrArg List.flatten (congrArg List.ofFn (funext fun r => ?_))
  exact congrArg List.ofFn (funext fun c => cell_ofFn r c)

/-- A matrix that is made of cells column after column has them so. -/
theorem exists_ofColumnMajor {rows cols : Nat} {data : List α}
    (size : data.length = cols * rows) :
    ∃ m : Matrix α, ofColumnMajor? rows cols data.toArray = some m ∧ m.toColumnMajor = data := by
  have size' : data.toArray.size = cols * rows := by simpa using size
  exact ⟨_, dif_pos size', rfl⟩

theorem ofFn_cell (m : Matrix α) : ofFn m.rows m.cols m.cell = m := by
  obtain ⟨rows, cols, data, size⟩ := m
  simp only [ofFn, Matrix.mk.injEq, true_and]
  refine Array.ext (by simp [size]) fun i low low' => ?_
  rw [Array.getElem_ofFn, cell]
  simp only [rowOf, colOf]
  congr 1
  exact Nat.div_add_mod' i rows

/-- A matrix is told by its extents and its entries. -/
theorem ext_get? {m m' : Matrix α} (rows : m.rows = m'.rows) (cols : m.cols = m'.cols)
    (same : ∀ r c, m.get? r c = m'.get? r c) : m = m' := by
  obtain ⟨height, width, data, size⟩ := m
  obtain ⟨height', width', data', size'⟩ := m'
  obtain rfl : height = height' := rows
  obtain rfl : width = width' := cols
  rw [← ofFn_cell ⟨height, width, data, size⟩, ← ofFn_cell ⟨height, width, data', size'⟩]
  refine congrArg (ofFn height width) (funext fun (r : Fin height) =>
    funext fun (c : Fin width) => Option.some.inj ?_)
  calc some (cell ⟨height, width, data, size⟩ r c)
      = get? ⟨height, width, data, size⟩ r c := (get?_eq_cell _ _).symm
    _ = get? ⟨height, width, data', size'⟩ r c := same r c
    _ = some (cell ⟨height, width, data', size'⟩ r c) := get?_eq_cell _ _

theorem get?_filled {rows cols : Nat} (row : r < rows) (col : c < cols) :
    (filled rows cols v).get? r c = some v := by
  rw [get?_eq_cell row col]
  simp [cell, filled]

theorem ofColumnMajor?_toColumnMajor (m : Matrix α) :
    ofColumnMajor? m.rows m.cols m.toColumnMajor.toArray = some m :=
  dif_pos (by rw [toColumnMajor, Array.toArray_toList, m.size_data])

theorem length_flatten {lists : List (List α)} {n : Nat} (sizes : ∀ l ∈ lists, l.length = n) :
    lists.flatten.length = lists.length * n := by
  rw [List.length_flatten, List.map_congr_left sizes, List.map_const', List.sum_replicate_nat]

theorem length_toRowMajor (m : Matrix α) : m.toRowMajor.length = m.rows * m.cols := by
  rw [toRowMajor, length_flatten fun _ => m.length_of_mem_rowList, length_rowList]

theorem getElem?_flatten {lists : List (List α)} {n : Nat} (sizes : ∀ l ∈ lists, l.length = n)
    {row : List α} (at_ : lists[r]? = some row) (low : c < n) :
    lists.flatten[r * n + c]? = row[c]? := by
  induction lists generalizing r with
  | nil => cases at_
  | cons first rest ih =>
    have size : first.length = n := sizes first List.mem_cons_self
    rw [List.flatten_cons]
    cases r with
    | zero =>
      cases at_
      rw [Nat.zero_mul, Nat.zero_add, List.getElem?_append_left (size ▸ low)]
    | succ r =>
      have place : (r + 1) * n + c - first.length = r * n + c := by
        rw [size, Nat.succ_mul]
        omega
      have beyond : first.length ≤ (r + 1) * n + c := by
        rw [size, Nat.succ_mul]
        omega
      rw [List.getElem?_append_right beyond, place]
      exact ih (fun l mem => sizes l (List.mem_cons_of_mem _ mem)) at_

theorem getElem?_toRowMajor (h : m.get? r c = some v) :
    m.toRowMajor[r * m.cols + c]? = some v := by
  obtain ⟨row, at_, value⟩ := getElem?_rowList h
  rw [toRowMajor, getElem?_flatten (fun _ => m.length_of_mem_rowList) at_ (lt_of_get? h).2, value]

theorem ofRowMajor?_toRowMajor (m : Matrix α) :
    ofRowMajor? m.rows m.cols m.toRowMajor.toArray = some m := by
  have size : m.toRowMajor.toArray.size = m.rows * m.cols := by
    rw [List.size_toArray, m.length_toRowMajor]
  refine (dif_pos size).trans (congrArg some ?_)
  refine Eq.trans ?_ m.ofFn_cell
  refine congrArg (ofFn m.rows m.cols) (funext fun r => funext fun c => ?_)
  have there := getElem?_toRowMajor (get?_eq_cell r.isLt c.isLt)
  rw [List.getElem_toArray]
  exact (List.getElem?_eq_some_iff.1 there).2

/-! ## Transposing -/

theorem get?_transpose (m : Matrix α) (r c : Nat) : m.transpose.get? c r = m.get? r c := by
  by_cases inside : r < m.rows ∧ c < m.cols
  · obtain ⟨row, col⟩ := inside
    rw [get?_eq_cell row col]
    exact get?_ofFn col row
  · rw [get?_eq_none inside]
    exact get?_eq_none fun both => inside both.symm

theorem transpose_transpose (m : Matrix α) : m.transpose.transpose = m := by
  refine Eq.trans ?_ m.ofFn_cell
  exact congrArg (ofFn m.rows m.cols) (funext fun r => funext fun c => cell_ofFn c r)

/-- The rows of the transpose are the columns. -/
theorem rowList_transpose (m : Matrix α) : m.transpose.rowList = m.columnList := by
  refine congrArg List.ofFn (funext fun c => ?_)
  exact congrArg List.ofFn (funext fun r => cell_ofFn c r)

/-- The buffer of a matrix is the transpose row after row. -/
theorem toRowMajor_transpose (m : Matrix α) : m.transpose.toRowMajor = m.toColumnMajor := by
  have length : m.transpose.toRowMajor.length = m.toColumnMajor.length :=
    m.transpose.length_toRowMajor.trans m.length_toColumnMajor.symm
  refine List.ext_getElem length fun k _ low => ?_
  rw [m.length_toColumnMajor] at low
  have pos : 0 < m.rows := Nat.pos_of_mul_pos_left (Nat.zero_lt_of_lt low)
  obtain ⟨v, entry⟩ := m.exists_get? (Nat.mod_lt k pos) ((Nat.div_lt_iff_lt_mul pos).2 low)
  have left := getElem?_toRowMajor ((m.get?_transpose _ _).trans entry)
  have right := getElem?_toColumnMajor entry
  have width : m.transpose.cols = m.rows := rfl
  rw [width, Nat.div_add_mod'] at left
  rw [Nat.div_add_mod'] at right
  exact Option.some.inj ((List.getElem?_eq_getElem _).symm.trans
    (left.trans (right.symm.trans (List.getElem?_eq_getElem _))))

theorem toColumnMajor_transpose (m : Matrix α) : m.transpose.toColumnMajor = m.toRowMajor := by
  rw [← toRowMajor_transpose, transpose_transpose]

theorem flatten_columnList (m : Matrix α) : m.columnList.flatten = m.toColumnMajor := by
  rw [← rowList_transpose]
  exact m.toRowMajor_transpose

/-! ## Replacing entries -/

@[simp] theorem rows_set (m : Matrix α) (r c : Nat) (v : α) : (m.set r c v).rows = m.rows := by
  unfold set
  split <;> rfl

@[simp] theorem cols_set (m : Matrix α) (r c : Nat) (v : α) : (m.set r c v).cols = m.cols := by
  unfold set
  split <;> rfl

/-- Entries at different places have different places in the buffer. -/
theorem eq_of_place {rows r' c' : Nat} (low : r < rows) (low' : r' < rows)
    (same : c * rows + r = c' * rows + r') : r = r' ∧ c = c' := by
  have pos : 0 < rows := Nat.zero_lt_of_lt low
  have rest := congrArg (· % rows) same
  have quotient := congrArg (· / rows) same
  simp only [Nat.mul_add_mod_self_right, Nat.mod_eq_of_lt, low, low'] at rest
  simp only [Nat.mul_comm _ rows, Nat.mul_add_div pos, Nat.div_eq_of_lt, low, low',
    Nat.add_zero] at quotient
  exact ⟨rest, quotient⟩

theorem get?_set_self {old : α} (there : m.get? r c = some old) :
    (m.set r c v).get? r c = some v := by
  obtain ⟨row, col⟩ := lt_of_get? there
  have low : c * m.rows + r < m.data.size := m.size_data ▸ place_lt ⟨c, col⟩ ⟨r, row⟩
  rw [get?_eq_getElem? (by simpa using row) (by simpa using col), rows_set]
  unfold set
  rw [if_pos ⟨row, col⟩]
  exact Array.getElem?_setIfInBounds_self_of_lt low

theorem get?_set_of_ne {r' c' : Nat} (other : ¬(r' = r ∧ c' = c)) :
    (m.set r c v).get? r' c' = m.get? r' c' := by
  by_cases inside' : r' < m.rows ∧ c' < m.cols
  · obtain ⟨row', col'⟩ := inside'
    rw [get?_eq_getElem? (by simpa using row') (by simpa using col'),
      get?_eq_getElem? row' col', rows_set]
    unfold set
    split
    · next inside =>
      exact Array.getElem?_setIfInBounds_ne fun same =>
        other (eq_of_place row' inside.1 same.symm)
    · rfl
  · rw [get?_eq_none inside', get?_eq_none (by simpa using inside')]

/-- Exactly the addressed entry is replaced, and none if the matrix has no such entry. -/
theorem get?_set (m : Matrix α) (r c : Nat) (v : α) (r' c' : Nat) :
    (m.set r c v).get? r' c' =
      if r' = r ∧ c' = c ∧ r < m.rows ∧ c < m.cols then some v else m.get? r' c' := by
  split
  · next here =>
    obtain ⟨rfl, rfl, row, col⟩ := here
    obtain ⟨old, there⟩ := m.exists_get? row col
    exact get?_set_self there
  · next elsewhere =>
    by_cases same : r' = r ∧ c' = c
    · obtain ⟨rfl, rfl⟩ := same
      have outside : ¬(r' < m.rows ∧ c' < m.cols) := fun inside => elsewhere ⟨rfl, rfl, inside⟩
      rw [set, if_neg outside]
    · exact get?_set_of_ne same

/-! ## Loops over places

A loop that looks an entry up for each place finds all of them or stops at the first that is
missing. -/

/-- A loop ends with nothing as soon as one of its steps does. -/
theorem mapM_eq_none {f : β → Option α} {l : List β} {x : β} (mem : x ∈ l) (missed : f x = none) :
    l.mapM f = none := by
  induction l with
  | nil => cases mem
  | cons y l ih =>
    rw [List.mapM_cons]
    cases here : f y with
    | none => rfl
    | some v =>
      rcases List.mem_cons.1 mem with rfl | mem
      · cases missed.symm.trans here
      · rw [ih mem]
        rfl

/-- A loop over the places of a list finds the list if every step finds its entry. -/
theorem mapM_range_eq_some {f : Nat → Option α} {l : List α} {n : Nat} (length : l.length = n)
    (find : ∀ i < n, f i = l[i]?) : (List.range n).mapM f = some l := by
  subst length
  refine mapM_eq_some (List.ext_getElem (by simp) fun i low low' => ?_)
  have low : i < l.length := by simpa using low
  simp only [List.getElem_map, List.getElem_range]
  rw [find i low, List.getElem?_eq_getElem low]

theorem mapM_get?_row (m : Matrix α) (low : r < m.rows) :
    ((List.range m.cols).mapM fun c => m.get? r c) = some (m.row ⟨r, low⟩) := by
  exact mapM_range_eq_some (by simp [Matrix.row]) fun c _ => (m.getElem?_row low c).symm

theorem row?_eq_mapM (m : Matrix α) (r : Nat) :
    m.row? r = (List.range m.cols).mapM fun c => m.get? r c := by
  rw [row?]
  split
  · next none =>
    rw [none]
    rfl
  · next some =>
    split
    · next low => exact (m.mapM_get?_row low).symm
    · next high =>
      have first : 0 ∈ List.range m.cols := List.mem_range.2 (Nat.pos_of_ne_zero some)
      exact (mapM_eq_none first (get?_eq_none fun inside => high inside.1)).symm

/-- The rows of the transpose are the columns, one by one. -/
theorem row?_transpose (m : Matrix α) (c : Nat) : m.transpose.row? c = m.column? c := by
  rw [row?, column?]
  show (if m.rows = 0 then _ else if h : c < m.cols then _ else _) = _
  split
  · rfl
  · split
    · next low =>
      have cells : m.transpose.row ⟨c, low⟩ = m.column ⟨c, low⟩ :=
        congrArg List.ofFn (funext fun r => cell_ofFn _ r)
      rw [cells]
    · rfl

theorem column?_eq_mapM (m : Matrix α) (c : Nat) :
    m.column? c = (List.range m.rows).mapM fun r => m.get? r c := by
  rw [← row?_transpose, row?_eq_mapM]
  simp only [get?_transpose]
  rfl

/-! ## Lists of rows -/

theorem ofRows?_eq_none {rows : List (List α)} {row : List α} (mem : row ∈ rows)
    (uneven : row.length ≠ (rows.head?.map List.length).getD 0) : ofRows? rows = none :=
  if_pos (List.any_eq_true.2 ⟨row, mem, decide_eq_true uneven⟩)

theorem extents_of_ofRowMajor? {rows cols : Nat} {data : Array α}
    (made : ofRowMajor? rows cols data = some m) : m.rows = rows ∧ m.cols = cols := by
  rw [ofRowMajor?] at made
  split at made
  · cases made
    exact ⟨rfl, rfl⟩
  · cases made

theorem extents_of_ofColumnMajor? {rows cols : Nat} {data : Array α}
    (made : ofColumnMajor? rows cols data = some m) : m.rows = rows ∧ m.cols = cols := by
  rw [ofColumnMajor?] at made
  split at made
  · cases made
    exact ⟨rfl, rfl⟩
  · cases made

theorem exists_ofRows {rows : List (List α)} {n : Nat} (even : ∀ row ∈ rows, row.length = n) :
    ∃ m, ofRows? rows = some m ∧ m.rowList = rows := by
  obtain ⟨cols, width⟩ : ∃ cols, (rows.head?.map List.length).getD 0 = cols := ⟨_, rfl⟩
  have even : ∀ row ∈ rows, row.length = cols := by
    intro row mem
    cases rows with
    | nil => cases mem
    | cons first rest =>
      rw [even row mem, ← width, ← even first List.mem_cons_self]
      rfl
  obtain ⟨m, made, cells⟩ := exists_ofRowMajor (length_flatten even)
  obtain ⟨height, width'⟩ := extents_of_ofRowMajor? made
  refine ⟨m, ?_, List.eq_iff_flatten_eq.2 ⟨cells, ?_⟩⟩
  · have none : ¬rows.any (·.length ≠ cols) = true := by
      rw [List.any_eq_true]
      rintro ⟨row, mem, uneven⟩
      exact of_decide_eq_true uneven (even row mem)
    rw [ofRows?, width]
    exact (if_neg none).trans made
  · rw [List.map_congr_left even, List.map_congr_left fun row => m.length_of_mem_rowList,
      List.map_const', List.map_const', length_rowList, height, width']

theorem isSome_ofRows?_iff {rows : List (List α)} :
    (ofRows? rows).isSome ↔ ∃ n, ∀ row ∈ rows, row.length = n := by
  constructor
  · intro made
    refine ⟨(rows.head?.map List.length).getD 0, fun row mem => ?_⟩
    by_contra uneven
    rw [ofRows?_eq_none mem uneven] at made
    cases made
  · rintro ⟨n, even⟩
    obtain ⟨m, made, -⟩ := exists_ofRows even
    rw [made]
    rfl

theorem rowList_of_ofRows? {rows : List (List α)} (made : ofRows? rows = some m) :
    m.rowList = rows := by
  obtain ⟨n, even⟩ := isSome_ofRows?_iff.1 (Option.isSome_of_eq_some made)
  obtain ⟨m', made', same⟩ := exists_ofRows even
  cases made.symm.trans made'
  exact same

end StudyArchive.Matrix
