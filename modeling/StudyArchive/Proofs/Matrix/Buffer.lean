import Mathlib.Algebra.Group.Nat.Defs
import StudyArchive.Matrix.Buffer
import StudyArchive.Proofs.Matrix
/-
# What buffers hold

A buffer whose cells are counted by a word is built only from as many cells as it has places: the
buffers that are built are those of the matrices (`Buffer.built_iff`).  So no index is ever outside
the list, no sum or product leaves the words, and what is done to a buffer is done to rows and
columns of a matrix (`Buffer.lays_out_cells`), with words of either kind.

That the cells are counted by a word has to be said.  Extents whose product is none are neither
taken nor refused; where products wrap, a buffer without any cells passes for one of 2^63 rows and
two columns, and every index that is used on it is outside (`Buffer.takes_no_cells`).
-/

namespace StudyArchive

/-- The extents of a matrix and its cells, column after column. -/
def Matrix.buffer {α : Type} (m : Matrix α) : Buffer α := ⟨m.rows, m.cols, m.toColumnMajor⟩

namespace Buffer

variable {α : Type} {a : Arithmetic}

/-- The buffers that are built with cells counted by a word, and those that become of them by
edits. -/
inductive Built (a : Arithmetic) : Buffer α → Prop
  | new [Inhabited α] {rows cols : Nat} {b : Buffer α} (word : IsWord (rows * cols)) :
      new a rows cols = some b → Built a b
  | filled {rows cols : Nat} {v : α} {b : Buffer α} (word : IsWord (rows * cols)) :
      filled a rows cols v = some b → Built a b
  | ofColumnMajor {rows cols : Nat} {data : List α} {b : Buffer α} (word : IsWord (rows * cols)) :
      ofColumnMajor a rows cols data = some (some b) → Built a b
  | ofRowMajor {rows cols : Nat} {data : List α} {b : Buffer α} (word : IsWord (rows * cols)) :
      ofRowMajor a rows cols data = some (some b) → Built a b
  | ofRows {rows : List (List α)} {b : Buffer α} (word : IsWord rows.flatten.length) :
      ofRows a rows = some (some b) → Built a b
  | set {b b' : Buffer α} (r c : Nat) (v : α) : Built a b → b.set a r c v = some b' → Built a b'
  | transpose {b b' : Buffer α} : Built a b → b.transpose a = some b' → Built a b'

/-- A place that is a word is looked up as it is. -/
theorem entry_eq (data : List α) {line width place : Nat} (word : IsWord (line * width + place)) :
    entry a data line width place = data[line * width + place]? := by
  rw [entry, a.word_eq (word.mono (Nat.le_add_right ..))]
  exact Answer.bind_eq (a.word_eq word) fun i => data[i]?

/-! ## Cells, rows and columns

Places below the number of cells are words if the number is one, so every lookup finds what the
matrix has there. -/

theorem length_buffer (m : Matrix α) : m.buffer.data.length = m.rows * m.cols :=
  m.length_toColumnMajor.trans (Nat.mul_comm ..)

/-- The place of a row and a column in the buffer has their cell. -/
theorem getElem?_buffer (m : Matrix α) {r c : Nat} (row : r < m.rows) (col : c < m.cols) :
    m.buffer.data[c * m.rows + r]? = m.get? r c := by
  rw [Matrix.get?_eq_getElem? row col, ← Array.getElem?_toList]
  rfl

/-- Where the cells are counted by a word, every place is one. -/
theorem isWord_place {rows cols r c : Nat} (word : IsWord (rows * cols)) (row : r < rows)
    (col : c < cols) : IsWord (r * cols + c) :=
  word.mono (Nat.le_of_lt (Matrix.place_lt ⟨r, row⟩ ⟨c, col⟩))

theorem entry_buffer {m : Matrix α} (word : IsWord (m.rows * m.cols)) {r c : Nat}
    (row : r < m.rows) (col : c < m.cols) : entry a m.buffer.data c m.rows r = m.get? r c := by
  rw [Nat.mul_comm] at word
  exact (entry_eq _ (isWord_place word col row)).trans (getElem?_buffer m row col)

theorem get_buffer {m : Matrix α} (word : IsWord (m.rows * m.cols)) (r c : Nat) :
    m.buffer.get a r c = some (m.get? r c) := by
  unfold get
  split
  · next inside =>
    obtain ⟨v, here⟩ := Matrix.exists_get? inside.1 inside.2
    have found : entry a m.buffer.data c m.buffer.rows r = some v :=
      (entry_buffer word inside.1 inside.2).trans here
    rw [found, here]
    rfl
  · next outside => exact congrArg some (Matrix.get?_eq_none outside).symm

/-- A row, also one that is not there, as long as its places are words. -/
theorem row_buffer (m : Matrix α) {r : Nat} (words : ∀ c < m.cols, IsWord (c * m.rows + r)) :
    m.buffer.row a r = m.row? r := by
  rw [Matrix.row?]
  show ((List.range m.cols).mapM fun c => entry a m.buffer.data c m.rows r) = _
  split
  · next none =>
    rw [none]
    rfl
  · next some =>
    split
    · next low =>
      refine Matrix.mapM_range_eq_some (by simp [Matrix.row]) fun c col => ?_
      rw [entry_eq _ (words c col), getElem?_buffer m low col, m.getElem?_row low]
    · next high =>
      -- the columns before the last may still have cells at these places, of other columns
      have last : m.cols - 1 < m.cols := by omega
      refine Matrix.mapM_eq_none (List.mem_range.2 last) ?_
      rw [entry_eq _ (words _ last)]
      refine List.getElem?_eq_none ?_
      rw [length_buffer]
      calc m.rows * m.cols = (m.cols - 1 + 1) * m.rows := by
            rw [Nat.sub_add_cancel (Nat.pos_of_ne_zero some), Nat.mul_comm]
        _ = (m.cols - 1) * m.rows + m.rows := Nat.succ_mul ..
        _ ≤ (m.cols - 1) * m.rows + r := Nat.add_le_add_left (Nat.le_of_not_lt high) _

/-- A column, also one that is not there, as long as its end is a word. -/
theorem column_buffer (m : Matrix α) {c : Nat} (next : IsWord (c + 1))
    (past : IsWord ((c + 1) * m.rows)) : m.buffer.column a c = m.column? c := by
  have first : IsWord (c * m.rows) := past.mono (Nat.mul_le_mul_right _ (Nat.le_succ c))
  have slice : m.buffer.column a c = if (c + 1) * m.rows ≤ m.rows * m.cols then
      some ((m.buffer.data.drop (c * m.rows)).take m.rows) else none := by
    have width : (c + 1) * m.rows - c * m.rows = m.rows := by
      rw [Nat.succ_mul, Nat.add_sub_cancel_left]
    have order : c * m.rows ≤ (c + 1) * m.rows := Nat.mul_le_mul_right _ (Nat.le_succ c)
    show (do
      let first ← a.word (c * m.rows)
      let past ← a.word ((← a.word (c + 1)) * m.rows)
      if first ≤ past ∧ past ≤ m.buffer.data.length then
        return (m.buffer.data.drop first).take (past - first)
      else none) = _
    simp only [a.word_eq first, a.word_eq next, a.word_eq past, Option.bind_eq_bind,
      Option.bind_some, length_buffer, width, order, true_and]
    rfl
  rw [slice, Nat.mul_comm m.rows, Matrix.column?]
  by_cases none : m.rows = 0
  · rw [if_pos none, none]
    simp
  · rw [if_neg none]
    by_cases col : c < m.cols
    · rw [dif_pos col, if_pos (Nat.mul_le_mul_right _ col)]
      refine congrArg some (List.ext_getElem? fun r => ?_)
      rw [m.getElem?_column col, List.getElem?_take]
      split
      · next row => rw [List.getElem?_drop, getElem?_buffer m row col]
      · next high => exact (Matrix.get?_eq_none fun inside => high inside.1).symm
    · have beyond : ¬(c + 1) * m.rows ≤ m.cols * m.rows := fun within =>
        col (Nat.le_of_mul_le_mul_right within (Nat.pos_of_ne_zero none))
      rw [dif_neg col, if_neg beyond]

theorem toRowMajor_buffer {m : Matrix α} (word : IsWord (m.rows * m.cols)) :
    m.buffer.toRowMajor a = some m.toRowMajor := by
  have rows : (List.range m.rows).mapM (m.buffer.row a) = some m.rowList := by
    refine mapM_eq_some (List.ext_getElem (by simp [Matrix.rowList]) fun r low _ => ?_)
    have low : r < m.rows := by simpa using low
    have words : ∀ c < m.cols, IsWord (c * m.rows + r) := fun c col => by
      rw [Nat.mul_comm] at word
      exact isWord_place word col low
    simp [row_buffer m words, Matrix.row?_eq_mapM, Matrix.mapM_get?_row, Matrix.rowList, low]
  exact Answer.bind_eq rows fun rows => some rows.flatten

/-! ## Buffers that are built

By cases on how the buffer was built, one equation for each way. -/

theorem filled_eq {rows cols : Nat} (word : IsWord (rows * cols)) (v : α) :
    filled a rows cols v = some (Matrix.filled rows cols v).buffer := by
  rw [filled, a.word_eq word]
  simp [Matrix.buffer, Matrix.filled, Matrix.toColumnMajor, Nat.mul_comm]

theorem ofColumnMajor_eq {rows cols : Nat} (word : IsWord (rows * cols)) (data : List α) :
    ofColumnMajor a rows cols data =
      some ((Matrix.ofColumnMajor? rows cols data.toArray).map Matrix.buffer) := by
  rw [ofColumnMajor, a.word_eq word]
  refine congrArg some ?_
  by_cases size : data.length = rows * cols
  · have made : data.toArray.size = cols * rows := size.trans (Nat.mul_comm ..)
    rw [if_pos size, Matrix.ofColumnMajor?, dif_pos made]
    rfl
  · have refused : ¬data.toArray.size = cols * rows := fun made =>
      size (Eq.trans made (Nat.mul_comm ..))
    rw [if_neg size, Matrix.ofColumnMajor?, dif_neg refused]
    rfl

theorem ofColumnMajor_of_length {b : Buffer α} (word : IsWord (b.rows * b.cols))
    (length : b.data.length = b.rows * b.cols) :
    ofColumnMajor a b.rows b.cols b.data = some (some b) := by
  rw [ofColumnMajor, a.word_eq word]
  exact congrArg some (if_pos length)

/-- The columns, gathered from cells that stand row after row. -/
theorem ofRowMajor_toRowMajor {m : Matrix α} (word : IsWord (m.rows * m.cols)) :
    ofRowMajor a m.rows m.cols m.toRowMajor = some (some m.buffer) := by
  have columns : ((List.range m.cols).mapM fun c =>
      (List.range m.rows).mapM fun r => entry a m.toRowMajor r m.cols c) = some m.columnList := by
    refine mapM_eq_some (List.ext_getElem (by simp [Matrix.columnList]) fun c low _ => ?_)
    have col : c < m.cols := by simpa using low
    have column : ((List.range m.rows).mapM fun r => entry a m.toRowMajor r m.cols c) =
        some (m.column ⟨c, col⟩) := by
      refine Matrix.mapM_range_eq_some (by simp [Matrix.column]) fun r row => ?_
      obtain ⟨v, entry⟩ := Matrix.exists_get? row col
      rw [entry_eq _ (isWord_place word row col), m.getElem?_column col,
        Matrix.getElem?_toRowMajor entry, entry]
    simpa [Matrix.columnList] using column
  have length : m.toRowMajor.length = m.rows * m.cols := m.length_toRowMajor
  rw [ofRowMajor, a.word_eq word, columns, Matrix.buffer, ← m.flatten_columnList]
  exact if_neg (not_not.2 length)

theorem ofRowMajor_eq {rows cols : Nat} (word : IsWord (rows * cols)) (data : List α) :
    ofRowMajor a rows cols data =
      some ((Matrix.ofRowMajor? rows cols data.toArray).map Matrix.buffer) := by
  by_cases size : data.length = rows * cols
  · obtain ⟨m, made, rfl⟩ := Matrix.exists_ofRowMajor size
    obtain ⟨rfl, rfl⟩ := Matrix.extents_of_ofRowMajor? made
    rw [made, ofRowMajor_toRowMajor word]
    rfl
  · have refused : Matrix.ofRowMajor? rows cols data.toArray = none :=
      dif_neg (by rwa [List.size_toArray])
    rw [refused, ofRowMajor, a.word_eq word]
    exact if_pos size

/-- A cell that is missed on the way ends the gathering. -/
theorem ofRowMajor_eq_none {rows cols r c : Nat} {data : List α}
    (counted : a.word (rows * cols) = some data.length) (row : r < rows) (col : c < cols)
    (missed : entry a data r cols c = none) : ofRowMajor a rows cols data = none := by
  have columns : ((List.range cols).mapM fun c =>
      (List.range rows).mapM fun r => entry a data r cols c) = none :=
    Matrix.mapM_eq_none (List.mem_range.2 col)
      (Matrix.mapM_eq_none (List.mem_range.2 row) missed)
  rw [ofRowMajor, counted, columns]
  exact if_neg (not_not.2 rfl)

/-- Rows that are equally long have as many cells as there are places, so no product is larger than
the list of all of them. -/
theorem ofRows_eq {rows : List (List α)} (word : IsWord rows.flatten.length) :
    ofRows a rows = some ((Matrix.ofRows? rows).map Matrix.buffer) := by
  rw [ofRows, Matrix.ofRows?]
  split
  · rfl
  · next even =>
    refine ofRowMajor_eq ?_ _
    have wide : ∀ row ∈ rows, row.length = (rows.head?.map List.length).getD 0 := by
      simpa using even
    rwa [Matrix.length_flatten wide] at word

theorem set_buffer {m : Matrix α} (word : IsWord (m.rows * m.cols)) (r c : Nat) (v : α) :
    m.buffer.set a r c v = some (m.set r c v).buffer := by
  rw [Matrix.set]
  show (if r < m.rows ∧ c < m.cols then (do
      let place ← a.word ((← a.word (c * m.rows)) + r)
      if place < m.buffer.data.length then
        return { m.buffer with data := m.buffer.data.set place v }
      else none)
    else some m.buffer) = _
  split
  · next inside =>
    rw [Nat.mul_comm] at word
    have place := isWord_place word inside.2 inside.1
    have line : IsWord (c * m.rows) := place.mono (Nat.le_add_right ..)
    have low : c * m.rows + r < m.buffer.data.length := by
      rw [length_buffer, Nat.mul_comm m.rows]
      exact Matrix.place_lt ⟨c, inside.2⟩ ⟨r, inside.1⟩
    simp only [a.word_eq line, a.word_eq place, Option.bind_eq_bind, Option.bind_some, if_pos low]
    simp [Matrix.buffer, Matrix.toColumnMajor]
  · rfl

/-- The buffer of a matrix is its transpose row after row. -/
theorem ofRowMajor_buffer {m : Matrix α} (word : IsWord (m.rows * m.cols)) :
    ofRowMajor a m.cols m.rows m.buffer.data = some (some m.transpose.buffer) := by
  have cells : m.buffer.data = m.transpose.toRowMajor := m.toRowMajor_transpose.symm
  rw [Nat.mul_comm] at word
  rw [cells]
  exact ofRowMajor_toRowMajor (m := m.transpose) word

theorem transpose_buffer {m : Matrix α} (word : IsWord (m.rows * m.cols)) :
    m.buffer.transpose a = some m.transpose.buffer :=
  Answer.bind_eq (ofRowMajor_buffer word) fun b? => some (b?.getD ⟨m.cols, m.rows, []⟩)

/-- The buffers that are built, and edited in any way, are those of matrices. -/
theorem built_iff {b : Buffer α} :
    b.Built a ↔ ∃ m : Matrix α, IsWord (m.rows * m.cols) ∧ m.buffer = b := by
  constructor
  · intro built
    induction built with
    | new word made | filled word made =>
      exact ⟨_, word, Option.some.inj ((filled_eq word _).symm.trans made)⟩
    | ofColumnMajor word made =>
      rw [ofColumnMajor_eq word, Option.some.injEq, Option.map_eq_some_iff] at made
      obtain ⟨m, from_, rfl⟩ := made
      obtain ⟨rfl, rfl⟩ := Matrix.extents_of_ofColumnMajor? from_
      exact ⟨m, word, rfl⟩
    | ofRowMajor word made =>
      rw [ofRowMajor_eq word, Option.some.injEq, Option.map_eq_some_iff] at made
      obtain ⟨m, from_, rfl⟩ := made
      obtain ⟨rfl, rfl⟩ := Matrix.extents_of_ofRowMajor? from_
      exact ⟨m, word, rfl⟩
    | ofRows word made =>
      rw [ofRows_eq word, Option.some.injEq, Option.map_eq_some_iff] at made
      obtain ⟨m, from_, rfl⟩ := made
      refine ⟨m, ?_, rfl⟩
      rwa [← m.length_toRowMajor, Matrix.toRowMajor, Matrix.rowList_of_ofRows? from_]
    | set r c v _ changed ih =>
      obtain ⟨m, word, rfl⟩ := ih
      refine ⟨m.set r c v, ?_, Option.some.inj ((set_buffer word r c v).symm.trans changed)⟩
      rwa [m.rows_set, m.cols_set]
    | transpose _ changed ih =>
      obtain ⟨m, word, rfl⟩ := ih
      refine ⟨m.transpose, ?_, Option.some.inj ((transpose_buffer word).symm.trans changed)⟩
      rwa [Nat.mul_comm] at word
  · rintro ⟨m, word, rfl⟩
    exact .ofColumnMajor word (ofColumnMajor_of_length word (length_buffer m))

/-- Buffers are built with the right number of cells, and every number that is right is built. -/
theorem built_iff_length {b : Buffer α} :
    b.Built a ↔ IsWord (b.rows * b.cols) ∧ b.data.length = b.rows * b.cols := by
  constructor
  · intro built
    obtain ⟨m, word, rfl⟩ := built_iff.1 built
    exact ⟨word, length_buffer m⟩
  · rintro ⟨word, length⟩
    exact .ofColumnMajor word (ofColumnMajor_of_length word length)

/-- However a buffer is built and edited, it has one cell for each row and column, and index
arithmetic on it, with words of either kind, does what is done to the rows and columns of a matrix
and never ends with nothing: the cells row after row make the matrix again; exchanging rows and
columns puts every cell at the exchanged place and undoes itself; a row or a column has its cells
and no others; lists of rows make a matrix exactly if they are equally long, and then they are its
rows; and overwriting a cell changes that cell, if there is one, and nothing else.  The cells have
to be counted by a word, and a row or a column that is not there has to have words for its places.
-/
theorem lays_out_cells (a : Arithmetic) :
    (∀ b : Buffer α, b.Built a ↔ IsWord (b.rows * b.cols) ∧ b.data.length = b.rows * b.cols) ∧
    (∀ b : Buffer α, b.Built a ↔ ∃ m : Matrix α, IsWord (m.rows * m.cols) ∧ m.buffer = b) ∧
    (∀ rows cols, IsWord (rows * cols) →
      (∀ v : α, filled a rows cols v = some (Matrix.filled rows cols v).buffer) ∧
      (∀ data : List α, ofColumnMajor a rows cols data =
        some ((Matrix.ofColumnMajor? rows cols data.toArray).map Matrix.buffer)) ∧
      ∀ data : List α, ofRowMajor a rows cols data =
        some ((Matrix.ofRowMajor? rows cols data.toArray).map Matrix.buffer)) ∧
    (∀ rows : List (List α), IsWord rows.flatten.length →
      ofRows a rows = some ((Matrix.ofRows? rows).map Matrix.buffer) ∧
      ((Matrix.ofRows? rows).isSome ↔ ∃ n, ∀ row ∈ rows, row.length = n) ∧
      ∀ m ∈ Matrix.ofRows? rows, m.rowList = rows) ∧
    ∀ m : Matrix α, IsWord (m.rows * m.cols) →
      (∀ r c, m.buffer.get a r c = some (m.get? r c) ∧
        ((m.get? r c).isSome ↔ r < m.rows ∧ c < m.cols)) ∧
      (∀ r, (∀ c < m.cols, IsWord (c * m.rows + r)) → m.buffer.row a r = m.row? r ∧
        m.row? r = (List.range m.cols).mapM fun c => m.get? r c) ∧
      (∀ c, IsWord (c + 1) → IsWord ((c + 1) * m.rows) → m.buffer.column a c = m.column? c ∧
        m.column? c = (List.range m.rows).mapM fun r => m.get? r c) ∧
      (m.buffer.toRowMajor a = some m.toRowMajor ∧
        Matrix.ofRowMajor? m.rows m.cols m.toRowMajor.toArray = some m) ∧
      (ofRowMajor a m.cols m.rows m.buffer.data = some (some m.transpose.buffer) ∧
        m.buffer.transpose a = some m.transpose.buffer ∧ m.transpose.transpose = m ∧
        ∀ r c, m.transpose.get? c r = m.get? r c) ∧
      ∀ r c v, m.buffer.set a r c v = some (m.set r c v).buffer ∧
        (m.set r c v).rows = m.rows ∧ (m.set r c v).cols = m.cols ∧
        ∀ r' c', (m.set r c v).get? r' c' =
          if r' = r ∧ c' = c ∧ r < m.rows ∧ c < m.cols then some v else m.get? r' c' := by
  refine ⟨fun b => built_iff_length, fun b => built_iff, fun rows cols word =>
      ⟨filled_eq word, ofColumnMajor_eq word, ofRowMajor_eq word⟩,
    fun rows word => ⟨ofRows_eq word, Matrix.isSome_ofRows?_iff, fun m made => ?_⟩,
    fun m word => ⟨fun r c => ⟨get_buffer word r c, m.isSome_get?_iff⟩,
      fun r words => ⟨row_buffer m words, m.row?_eq_mapM r⟩,
      fun c next past => ⟨column_buffer m next past, m.column?_eq_mapM c⟩,
      ⟨toRowMajor_buffer word, m.ofRowMajor?_toRowMajor⟩,
      ⟨ofRowMajor_buffer word, transpose_buffer word, m.transpose_transpose, m.get?_transpose⟩,
      fun r c v => ⟨set_buffer word r c v, m.rows_set r c v, m.cols_set r c v, m.get?_set r c v⟩⟩⟩
  exact Matrix.rowList_of_ofRows? made

/-- Three rows of two, put one after the other and read as two rows of three. -/
theorem lays_out_cells_of_three_rows :
    IsWord 6 ∧ ofRows .wrapping [[1, 2], [3, 4], [5, 6]] = some (some ⟨3, 2, [1, 3, 5, 2, 4, 6]⟩) ∧
      (Buffer.mk 3 2 [1, 3, 5, 2, 4, 6]).transpose .wrapping =
        some ⟨2, 3, [1, 2, 3, 4, 5, 6]⟩ := by
  obtain ⟨-, -, -, rows, cells⟩ := lays_out_cells (α := Nat) .wrapping
  have word : IsWord 6 := by decide
  refine ⟨word, (rows [[1, 2], [3, 4], [5, 6]] word).1.trans (by decide), ?_⟩
  have transposed := (cells ⟨3, 2, #[1, 3, 5, 2, 4, 6], rfl⟩ word).2.2.2.2.1.2.1
  exact transposed.trans (by decide)

/-- No cells, for 2^63 rows and two columns.  Where products wrap, they make a buffer column by
column, on which nothing can be written, and row by row the first cell is missed; where products are
checked, nothing comes of them either way. -/
theorem takes_no_cells :
    let empty : Buffer Nat := ⟨2 ^ 63, 2, []⟩
    ofColumnMajor .wrapping (2 ^ 63) 2 [] = some (some empty) ∧
      empty.data.length ≠ empty.rows * empty.cols ∧ empty.set .wrapping 0 0 1 = none ∧
      ∀ a, ofRowMajor a (2 ^ 63) 2 ([] : List Nat) = none := by
  refine ⟨by decide +kernel, by decide, by decide +kernel, fun a => ?_⟩
  have missed : entry .wrapping ([] : List Nat) 0 2 0 = none := rfl
  cases a with
  | checked => rfl
  | wrapping =>
    exact ofRowMajor_eq_none rfl (Nat.two_pow_pos 63) Nat.two_pos missed

end Buffer
end StudyArchive
