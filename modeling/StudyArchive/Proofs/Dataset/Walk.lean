import Mathlib.Tactic.ByContra
import StudyArchive.Dataset.Selection
/-
# The walk over a selection

The cells of a selection are found by a counter and put in their places by strides.  Neither is
convenient to reason about, and each comes to a plain recursion over the axes: the walk to all
tuples of indices of the box (`Selection.cells_eq_tuples`), the strides to the place of a cell in
row-major order (`Selection.offset_strides`).

The counter is followed through the number of steps it has made: after `k` steps it shows the digits
of `k` (`Selection.digits`), the extents being the bases, and it starts over where all of the box
has been counted.
-/

namespace StudyArchive.Selection

/-- Every tuple of indices of a box, the last one fastest. -/
def tuples : (start count : List Nat) → List (List Nat)
  | s :: starts, c :: counts =>
    let inner := tuples starts counts
    (List.range c).flatMap fun i => inner.map ((s + i) :: ·)
  | _, _ => [[]]

/-- The place of a cell in the row-major order of a box of the given extents. -/
def rowMajor : (dims cell : List Nat) → Nat
  | _ :: dims, i :: cell => i * volume dims + rowMajor dims cell
  | _, _ => 0

/-- What the counter shows after so many steps. -/
def digits : (count : List Nat) → Nat → List Nat
  | [], _ => []
  | _ :: count, k => k / volume count :: digits count (k % volume count)

/-! ## The counter

Read as digits, the counter counts.  A step adds one, with the carries. -/

theorem digits_zero (count : List Nat) : digits count 0 = count.map fun _ => 0 := by
  induction count with
  | nil => rfl
  | cons c count ih => rw [digits, Nat.zero_div, Nat.zero_mod, ih, List.map_cons]

theorem div_mod_of_lt {m r : Nat} (low : r < m) (i : Nat) :
    (i * m + r) / m = i ∧ (i * m + r) % m = r := by
  constructor
  · rw [Nat.mul_comm, Nat.mul_add_div (by omega), Nat.div_eq_of_lt low, Nat.add_zero]
  · rw [Nat.mul_comm, Nat.mul_add_mod, Nat.mod_eq_of_lt low]

/-- The first digit counts how often the other axes were gone through. -/
theorem digits_cons (c i : Nat) {r : Nat} {count : List Nat} (low : r < volume count) :
    digits (c :: count) (i * volume count + r) = i :: digits count r := by
  obtain ⟨quotient, remainder⟩ := div_mod_of_lt low i
  rw [digits, quotient, remainder]

/-- A step of the counter adds one to the number it shows; from the last number on it starts over.
-/
theorem advance_digits {count : List Nat} {k : Nat} (low : k < volume count) :
    advance count (digits count k) =
      if k + 1 < volume count then (digits count (k + 1), false) else (digits count 0, true) := by
  induction count generalizing k with
  | nil =>
    have zero : k = 0 := by simpa [volume] using low
    subst zero
    rfl
  | cons c count ih =>
    rw [volume] at low ⊢
    have pos : 0 < volume count := Nat.pos_of_ne_zero fun none => by simp [none] at low
    obtain ⟨i, r, inner, rfl⟩ : ∃ i r, r < volume count ∧ k = i * volume count + r :=
      ⟨k / volume count, k % volume count, Nat.mod_lt k pos, (Nat.div_add_mod' k _).symm⟩
    have digit : i < c := by
      by_contra beyond
      have := Nat.mul_le_mul_right (volume count) (Nat.le_of_not_lt beyond)
      omega
    have zeros := digits_cons c 0 pos
    rw [Nat.zero_mul] at zeros
    rw [digits_cons c i inner, advance, ih inner]
    by_cases more : r + 1 < volume count
    · -- the digits of the inner axes go on
      have below : (i + 1) * volume count ≤ c * volume count := Nat.mul_le_mul_right _ digit
      rw [Nat.succ_mul] at below
      rw [if_pos more, if_pos (by omega), Nat.add_assoc, digits_cons c i more]
    · -- the inner axes start over, and this digit goes on or starts over with them
      have next : i * volume count + r + 1 = (i + 1) * volume count + 0 := by
        rw [Nat.succ_mul]
        omega
      rw [if_neg more, next, digits_cons c (i + 1) pos, zeros]
      by_cases on : i + 1 < c
      · have below : (i + 1) * volume count < c * volume count := Nat.mul_lt_mul_of_pos_right on pos
        simp only [if_pos on, Nat.add_zero, if_pos below]
      · have last : c = i + 1 := by omega
        simp only [last, Nat.add_zero, Nat.lt_irrefl, if_false]

/-- The walk shows the digits of one number after the other, as long as there are cells. -/
theorem walk_digits {count : List Nat} (n : Nat) {k : Nat} (low : k + n ≤ volume count) :
    walk count n (digits count k) = (List.range' k n).map (digits count) := by
  induction n generalizing k with
  | zero => rfl
  | succ n ih =>
    rw [walk, List.range'_succ, List.map_cons, advance_digits (by omega)]
    congr 1
    by_cases more : k + 1 < volume count
    · rw [if_pos more]
      exact ih (by omega)
    · have done : n = 0 := by omega
      subst done
      rfl

/-! ## All tuples

Numbers below the volume, written as digits, are the tuples in row-major order. -/

/-- A range of rows of one length is a range. -/
theorem flatMap_range_mul {α : Type} (c m : Nat) (f : Nat → Nat → α) :
    ((List.range c).flatMap fun i => (List.range m).map (f i)) =
      (List.range (c * m)).map fun k => f (k / m) (k % m) := by
  induction c with
  | zero => simp
  | succ c ih =>
    rw [List.range_succ, List.flatMap_append, List.flatMap_singleton, ih, Nat.succ_mul,
      List.range_add, List.map_append, List.map_map]
    congr 1
    refine List.map_congr_left fun r mem => ?_
    obtain ⟨quotient, remainder⟩ := div_mod_of_lt (List.mem_range.1 mem) c
    simp only [Function.comp_apply, quotient, remainder]

/-- The tuples of a box are the digits of the numbers below its volume, from the start on. -/
theorem tuples_eq_digits {start count : List Nat} (h : start.length = count.length) :
    tuples start count =
      (List.range (volume count)).map fun k => List.zipWith (· + ·) start (digits count k) := by
  induction start generalizing count with
  | nil =>
    obtain rfl : count = [] := List.eq_nil_of_length_eq_zero h.symm
    rfl
  | cons s starts ih =>
    cases count with
    | nil => cases h
    | cons c count =>
      have inner := ih (Nat.succ.inj h)
      simp only [tuples, inner, List.map_map]
      exact flatMap_range_mul c (volume count)
        fun i r => (s + i) :: List.zipWith (· + ·) starts (digits count r)

theorem cells_eq_tuples (s : Selection) (h : s.start.length = s.count.length) :
    s.cells = tuples s.start s.count := by
  have shown := walk_digits s.size (k := 0) (Nat.le_of_eq (Nat.zero_add _))
  rw [cells, ← digits_zero, shown, List.map_map, tuples_eq_digits h, List.range_eq_range']
  rfl

theorem length_tuples (start count : List Nat) (h : start.length = count.length) :
    (tuples start count).length = volume count := by
  rw [tuples_eq_digits h, List.length_map, List.length_range]

theorem length_cells (s : Selection) (h : s.start.length = s.count.length) :
    s.cells.length = s.size := by
  rw [cells_eq_tuples s h]
  exact length_tuples s.start s.count h

/-! ## Strides

A stride is what one step along its axis passes: the volume of the axes behind it. -/

/-- A step along the first axis passes all the cells of the other axes. -/
theorem strides_cons (n : Nat) (dims : List Nat) :
    strides (n :: dims) = volume dims :: strides dims := by
  induction dims generalizing n with
  | nil => rfl
  | cons m dims ih => rw [strides, ih, volume, Nat.mul_comm]

/-- The strides put a cell in its place. -/
theorem offset_strides {dims cell : List Nat} (h : cell.length = dims.length) :
    offset (strides dims) cell = rowMajor dims cell := by
  induction dims generalizing cell with
  | nil =>
    obtain rfl := List.eq_nil_of_length_eq_zero h
    rfl
  | cons n dims ih =>
    cases cell with
    | nil => cases h
    | cons i cell =>
      rw [strides_cons, offset, ih (Nat.succ.inj h), rowMajor]

end StudyArchive.Selection
