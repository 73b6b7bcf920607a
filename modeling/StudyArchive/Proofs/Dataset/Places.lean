import Mathlib.Data.List.Forall2
import Mathlib.Data.List.Nodup
import Mathlib.Tactic.Linarith
import StudyArchive.Proofs.Dataset.Walk
/-
# Indices, their places and the boxes that hold them

The place of a cell in the row-major order of a box is below the volume of the box, and cells of one
box with one place are one cell.  The cells that a selection lists are the indices of its box, each
of them once.
-/

namespace StudyArchive

/-- An index lies within extents: it has a number below the extent for each axis. -/
abbrev Inside (dims index : List Nat) : Prop := List.Forall₂ (· < ·) index dims

namespace Selection

/-! ## Places

Row-major order is the order of the digits of a number in mixed bases. -/

/-- A box without zero extents has a cell. -/
theorem volume_pos {dims : List Nat} (pos : ∀ n ∈ dims, 0 < n) : 0 < volume dims := by
  induction dims with
  | nil => exact Nat.one_pos
  | cons n dims ih =>
    obtain ⟨first, others⟩ := List.forall_mem_cons.1 pos
    exact Nat.mul_pos first (ih others)

theorem rowMajor_lt {dims index : List Nat} (inside : Inside dims index) :
    rowMajor dims index < volume dims := by
  induction inside with
  | nil => simp [rowMajor, volume]
  | @cons i n index dims low _ ih =>
    calc rowMajor (n :: dims) (i :: index)
        = i * volume dims + rowMajor dims index := rfl
      _ < i * volume dims + volume dims := by omega
      _ = (i + 1) * volume dims := (Nat.succ_mul ..).symm
      _ ≤ n * volume dims := Nat.mul_le_mul_right _ low

/-- Two quotients and remainders that spell one number are the same. -/
theorem mul_add_inj {m a b r s : Nat} (hr : r < m) (hs : s < m)
    (same : a * m + r = b * m + s) : a = b ∧ r = s := by
  obtain ⟨quotient, remainder⟩ := div_mod_of_lt hr a
  obtain ⟨quotient', remainder'⟩ := div_mod_of_lt hs b
  rw [same] at quotient remainder
  exact ⟨quotient.symm.trans quotient', remainder.symm.trans remainder'⟩

theorem rowMajor_injective {dims a b : List Nat} (ha : Inside dims a) (hb : Inside dims b)
    (same : rowMajor dims a = rowMajor dims b) : a = b := by
  induction ha generalizing b with
  | nil => cases hb; rfl
  | cons low inside ih =>
    cases hb with
    | cons low' inside' =>
      obtain ⟨rfl, rest⟩ := mul_add_inj (rowMajor_lt inside) (rowMajor_lt inside') same
      rw [ih inside' rest]

/-- An index within extents is what the counter shows when it has come to its place. -/
theorem digits_rowMajor {dims index : List Nat} (inside : Inside dims index) :
    digits dims (rowMajor dims index) = index := by
  induction inside with
  | nil => rfl
  | @cons i n index dims low inside ih =>
    rw [rowMajor, digits_cons n i (rowMajor_lt inside), ih]

/-! ## Boxes -/

/-- An index lies in the box of a selection. -/
def Has : (start count index : List Nat) → Prop
  | s :: start, c :: count, i :: index => s ≤ i ∧ i < s + c ∧ Has start count index
  | [], [], [] => True
  | _, _, _ => False

theorem mem_tuples {start count index : List Nat} (lengths : start.length = count.length) :
    index ∈ tuples start count ↔ Has start count index := by
  induction start generalizing count index with
  | nil =>
    obtain rfl : count = [] := List.eq_nil_of_length_eq_zero lengths.symm
    cases index <;> simp [tuples, Has]
  | cons s start ih =>
    cases count with
    | nil => cases lengths
    | cons c count =>
      have inner (index : List Nat) : index ∈ tuples start count ↔ Has start count index :=
        ih (Nat.succ.inj lengths)
      simp only [tuples, List.mem_flatMap, List.mem_range, List.mem_map]
      constructor
      · rintro ⟨k, low, rest, mem, rfl⟩
        exact ⟨by omega, by omega, (inner rest).1 mem⟩
      · intro has
        cases index with
        | nil => exact has.elim
        | cons i index =>
          obtain ⟨low, high, has⟩ := has
          exact ⟨i - s, by omega, index, (inner index).2 has, by rw [Nat.add_sub_cancel' low]⟩

theorem nodup_tuples (start count : List Nat) : (tuples start count).Nodup := by
  induction start generalizing count with
  | nil => simp [tuples]
  | cons s start ih =>
    cases count with
    | nil => simp [tuples]
    | cons c count =>
      refine List.nodup_flatMap.2 ⟨fun k _ => ?_, ?_⟩
      · exact (ih count).map fun a b same => (List.cons.inj same).2
      · refine List.nodup_range.imp fun {a b} differ => ?_
        simp only [Function.onFun, List.disjoint_left, List.mem_map]
        rintro _ ⟨x, _, rfl⟩ ⟨y, _, same⟩
        exact differ (by have := (List.cons.inj same).1; omega)

theorem mem_cells {s : Selection} {index : List Nat} (lengths : s.start.length = s.count.length) :
    index ∈ s.cells ↔ Has s.start s.count index := by
  rw [cells_eq_tuples s lengths, mem_tuples lengths]

theorem nodup_cells {s : Selection} (lengths : s.start.length = s.count.length) :
    s.cells.Nodup := by
  rw [cells_eq_tuples s lengths]
  exact nodup_tuples s.start s.count

/-- A box within extents holds only indices within them. -/
theorem Has.inside {start count dims index : List Nat} (has : Has start count index)
    (within : List.Forall₂ (fun sc d => sc.1 + sc.2 ≤ d) (start.zip count) dims) :
    Inside dims index := by
  induction start generalizing count dims index with
  | nil =>
    cases count with
    | cons c count => cases index <;> exact has.elim
    | nil =>
      cases index with
      | cons i index => exact has.elim
      | nil => cases within; exact .nil
  | cons s start ih =>
    cases count with
    | nil => cases index <;> exact has.elim
    | cons c count =>
      cases index with
      | nil => exact has.elim
      | cons i index =>
        obtain ⟨-, high, has⟩ := has
        cases within with
        | cons first rest => exact .cons (Nat.lt_of_lt_of_le high first) (ih has rest)

/-! ## Places in a selection -/

/-- The place of an index in the row-major order of a selection that has it. -/
def place (s : Selection) (index : List Nat) : Nat :=
  rowMajor s.count (List.zipWith (· - ·) index s.start)

/-- An index of a box is its start and an offset within its extents. -/
theorem Has.offset {start count index : List Nat} (has : Has start count index) :
    Inside count (List.zipWith (· - ·) index start) ∧
      List.zipWith (· + ·) start (List.zipWith (· - ·) index start) = index := by
  induction start generalizing count index with
  | nil =>
    cases count with
    | cons c count => cases index <;> exact has.elim
    | nil =>
      cases index with
      | cons i index => exact has.elim
      | nil => exact ⟨.nil, rfl⟩
  | cons s start ih =>
    cases count with
    | nil => cases index <;> exact has.elim
    | cons c count =>
      cases index with
      | nil => exact has.elim
      | cons i index =>
        obtain ⟨low, high, has⟩ := has
        obtain ⟨inside, same⟩ := ih has
        have here : i - s < c := by omega
        refine ⟨.cons here inside, ?_⟩
        rw [List.zipWith_cons_cons, List.zipWith_cons_cons, same, Nat.add_sub_cancel' low]

theorem getElem?_tuples {s : Selection} {index : List Nat}
    (lengths : s.start.length = s.count.length) (has : Has s.start s.count index) :
    (tuples s.start s.count)[s.place index]? = some index := by
  obtain ⟨inside, same⟩ := has.offset
  have here : s.place index < volume s.count := rowMajor_lt inside
  rw [tuples_eq_digits lengths, List.getElem?_map, List.getElem?_range here, Option.map_some,
    place, digits_rowMajor inside, same]

end Selection
end StudyArchive
