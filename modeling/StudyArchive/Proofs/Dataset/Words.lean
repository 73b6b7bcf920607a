import Mathlib.Data.List.Infix
import StudyArchive.Proofs.Dataset.Rows
/-
# Datasets on machine words

`Dataset.write` and `Dataset.read` find a cell by sums and products of numbers.  A program has words
for them, and takes the sums and products one after the other: where a selection ends on each axis,
how many cells it has, how many a step along each axis passes, where a cell lies in its row and its
row in its chunk.  `Dataset.writeIn` and `Dataset.readIn` do it that way, for each `Arithmetic`, and
stop where an index is outside its chunk.

As long as nothing leaves the words they do what `Dataset.write` and `Dataset.read` do, and never
stop (`Dataset.writeIn_eq`, `Dataset.readIn_eq`).  What must not leave the words is said by
`Selection.Addressed` of the request and by `Dataset.Sized` of the dataset; neither can be done
without.  A selection that starts at the last word seems to end at 0 where sums wrap, passes the
check, and leads outside its chunk; rows of more cells than there are words seem to be short.

How much memory there is is another matter, and not one of these.
-/

namespace StudyArchive

/-! ## Products

A product is taken factor by factor, and it may leave the words on the way even if a later factor
is 0. -/

/-- The product of numbers, taken from the first on. -/
def Arithmetic.product (a : Arithmetic) (ns : List Nat) : Answer Nat :=
  ns.foldlM (fun product n => a.word (product * n)) 1

/-- Numbers whose product, taken from the first on, stays a word all the way. -/
def IsCounted (ns : List Nat) : Prop := ∀ part ∈ ns.inits, IsWord (volume part)

instance (ns : List Nat) : Decidable (IsCounted ns) :=
  inferInstanceAs (Decidable (∀ part ∈ ns.inits, IsWord (volume part)))

namespace Selection

/-! ## Selections, as words

The definitions of `Dataset.write` and `Dataset.read` once more, with every sum and product as a
word.  Here an index outside a chunk is a stop, and not passed over. -/

/-- A selection that ends at words, and whose cells are counted in words. -/
structure Addressed (s : Selection) : Prop where
  ends : ∀ axis ∈ s.start.zip s.count, IsWord (axis.1 + axis.2)
  counted : IsCounted s.count

instance (s : Selection) : Decidable s.Addressed :=
  decidable_of_iff ((∀ axis ∈ s.start.zip s.count, IsWord (axis.1 + axis.2)) ∧ IsCounted s.count)
    ⟨fun h => ⟨h.1, h.2⟩, fun h => ⟨h.ends, h.counted⟩⟩

/-- How many cells a step along each axis passes. -/
def stridesIn (a : Arithmetic) : (dims : List Nat) → Answer (List Nat)
  | [] => some []
  | [_] => some [1]
  | _ :: n :: dims => do
    match ← stridesIn a (n :: dims) with
    | [] => return []
    | stride :: rest => return (← a.word (stride * n)) :: stride :: rest

/-- The cells that lie before the one at some steps from the start, one axis after the other. -/
def offsetIn (a : Arithmetic) : (sum : Nat) → (strides start steps : List Nat) → Answer Nat
  | sum, stride :: strides, s :: start, i :: steps => do
    let passed ← a.word ((← a.word (s + i)) * stride)
    offsetIn a (← a.word (sum + passed)) strides start steps
  | sum, _, _, _ => some sum

/-- The row of the cell at some steps from the start. -/
def rowIn (a : Arithmetic) : (start steps : List Nat) → Answer Nat
  | s :: _, i :: _ => a.word (s + i)
  | _, _ => some 0

/-- The row of the cell at some steps from the start, and its place in the row. -/
def positionIn (a : Arithmetic) (strides start steps : List Nat) : Answer (Nat × Nat) := do
  return (← rowIn a start steps, ← offsetIn a 0 strides start.tail steps.tail)

end Selection

namespace Dataset

open Selection

/-- A dataset whose rows and chunks have their cells counted in words. -/
structure Sized (d : Dataset) : Prop where
  row : IsCounted d.dims.tail
  chunk : IsWord d.chunkLength

instance (d : Dataset) : Decidable d.Sized :=
  decidable_of_iff (IsCounted d.dims.tail ∧ IsWord d.chunkLength)
    ⟨fun h => ⟨h.1, h.2⟩, fun h => ⟨h.row, h.chunk⟩⟩

/-- The first axis on which a selection ends beyond the extents. -/
def overrunIn? (a : Arithmetic) : (axis : Nat) → (start count dims : List Nat) → Answer (Option Nat)
  | axis, s :: start, c :: count, d :: dims => do
    if (← a.word (s + c)) ≤ d then overrunIn? a (axis + 1) start count dims
    else return some axis
  | _, _, _, _ => return none

/-- Refuse a selection of another rank or beyond the extents. -/
def checkSelectionIn (a : Arithmetic) (d : Dataset) (operation : String) (s : Selection) :
    Answer (Except StorageError Unit) := do
  let shown := s!"start {showExtents s.start}, count {showExtents s.count}"
  if s.start.length ≠ d.rank ∨ s.count.length ≠ d.rank then
    return .error (.shapeMismatch d.path operation s!"rank {d.rank} selection" shown)
  else
    match ← overrunIn? a 0 s.start s.count d.dims with
    | none => return .ok ()
    | some 0 =>
      let last ← a.word (s.start.head?.getD 0 + (s.count.head?.getD 0 - 1))
      return .error (.invalidIndex d.path operation last d.rows)
    | some _ => return .error (.shapeMismatch d.path operation (showExtents d.dims) shown)

/-- The row of each cell of a selection and the place in the row, in row-major order. -/
def positionsIn (a : Arithmetic) (d : Dataset) (s : Selection) : Answer (List (Nat × Nat)) := do
  let total ← a.product s.count
  if total = 0 then return []
  else
    let strides ← stridesIn a d.dims.tail
    (walk s.count total (s.count.map fun _ => 0)).mapM (positionIn a strides s.start)

/-- The place of a cell in its chunk. -/
def slotIn (a : Arithmetic) (d : Dataset) (rowLength : Nat) (position : Nat × Nat) :
    Answer Nat := do
  a.word ((← a.word (position.1 % d.chunkRows * rowLength)) + position.2)

/-- Write one cell; nothing comes of it if its place is outside the chunk. -/
def setCellIn (a : Arithmetic) (rowLength chunkLength : Nat) (d : Dataset) (position : Nat × Nat)
    (v : Datum) : Answer Dataset := do
  let key := position.1 / d.chunkRows
  let chunk := (d.chunks.get? key).getD (Array.replicate chunkLength d.fill)
  let slot ← d.slotIn a rowLength position
  if slot < chunk.size then
    return { d with chunks := d.chunks.insert key (chunk.setIfInBounds slot v) }
  else none

/-- Write values over a selection, one for each cell. -/
def writeIn (a : Arithmetic) (d : Dataset) (operation : String) (s : Selection)
    (values : List Datum) : Answer (Except StorageError Dataset) := do
  match ← d.checkSelectionIn a operation s with
  | .error e => return .error e
  | .ok () =>
    let positions ← d.positionsIn a s
    if positions.length ≠ values.length then
      return .error (.shapeMismatch d.path operation s!"{positions.length} elements"
        s!"{values.length} elements")
    else
      let rowLength ← a.product d.dims.tail
      let chunkLength ← a.word (d.chunkRows * max rowLength 1)
      let written ← (positions.zip values).foldlM
        (fun d (position, v) => d.setCellIn a rowLength chunkLength position v) d
      return .ok written

/-- What a cell holds; nothing comes of it if its place is outside the chunk. -/
def cellIn (a : Arithmetic) (d : Dataset) (rowLength : Nat) (position : Nat × Nat) :
    Answer Datum :=
  match d.chunks.get? (position.1 / d.chunkRows) with
  | none => some d.fill
  | some chunk => do chunk[← d.slotIn a rowLength position]?

/-- The values of a selection, in row-major order. -/
def readIn (a : Arithmetic) (d : Dataset) (operation : String) (s : Selection) :
    Answer (Except StorageError (List Datum)) := do
  match ← d.checkSelectionIn a operation s with
  | .error e => return .error e
  | .ok () =>
    let rowLength ← a.product d.dims.tail
    return .ok (← (← d.positionsIn a s).mapM (d.cellIn a rowLength))

end Dataset

/-! ## Products that stay words

A product is taken from the first factor on, so it is all words if the products of its first parts
are. -/

theorem IsCounted.isWord {ns : List Nat} (h : IsCounted ns) : IsWord (volume ns) :=
  h ns ((List.mem_inits ..).2 List.prefix_rfl)

/-- A number goes on being a word when it is multiplied with others, if it is one with all first
parts of them. -/
theorem foldlM_word (a : Arithmetic) {ns : List Nat} {n : Nat}
    (counted : ∀ part ∈ ns.inits, IsWord (n * volume part)) :
    ns.foldlM (fun product n => a.word (product * n)) n = some (n * volume ns) := by
  induction ns generalizing n with
  | nil => simp [volume]
  | cons m ns ih =>
    have longer (part : List Nat) (front : part ∈ ns.inits) : IsWord (n * m * volume part) := by
      rw [Nat.mul_assoc]
      exact counted (m :: part) ((List.mem_inits ..).2
        (List.cons_prefix_cons.2 ⟨rfl, (List.mem_inits ..).1 front⟩))
    have first : IsWord (n * m) := by simpa [volume] using longer [] (by simp)
    rw [List.foldlM_cons, a.word_eq first]
    show ns.foldlM _ (n * m) = _
    rw [ih longer, volume, Nat.mul_assoc]

theorem Arithmetic.product_eq (a : Arithmetic) {ns : List Nat} (counted : IsCounted ns) :
    a.product ns = some (volume ns) := by
  have product := foldlM_word a (n := 1) fun part front => by
    rw [Nat.one_mul]
    exact counted part front
  rwa [Nat.one_mul] at product

namespace Selection

/-! ## Selections

A cell of the selection lies within the extents, so its place is below the number of cells, and
whatever was added up on the way to it is too. -/

variable {s : Selection} {index : List Nat}

theorem isWord_of_has {start count : List Nat}
    (ends : ∀ axis ∈ start.zip count, IsWord (axis.1 + axis.2)) (has : Has start count index) :
    ∀ i ∈ index, IsWord i := by
  induction start generalizing count index with
  | nil =>
    cases count <;> cases index <;> first | exact has.elim | exact fun _ none => by cases none
  | cons s start ih =>
    cases count with
    | nil => cases index <;> exact has.elim
    | cons c count =>
      cases index with
      | nil => exact has.elim
      | cons i index =>
        obtain ⟨first, others⟩ := List.forall_mem_cons.1 ends
        obtain ⟨-, high, has⟩ := has
        exact List.forall_mem_cons.2 ⟨first.mono (Nat.le_of_lt high), ih others has⟩

/-- Strides are products of the extents that follow; where no extent is zero, the first of them is
the largest. -/
theorem stridesIn_eq (a : Arithmetic) {dims : List Nat} (pos : ∀ n ∈ dims, 0 < n)
    (word : IsWord (volume dims)) : stridesIn a dims = some (strides dims) := by
  induction dims with
  | nil => rfl
  | cons m dims ih =>
    cases dims with
    | nil => rfl
    | cons n dims =>
      obtain ⟨first, others⟩ := List.forall_mem_cons.1 pos
      have word : IsWord (volume (n :: dims)) := word.mono (Nat.le_mul_of_pos_left _ first)
      have product : IsWord (volume dims * n) := by rwa [Nat.mul_comm]
      rw [stridesIn, ih others word, strides_cons m, strides_cons n, volume, Nat.mul_comm n]
      simp only [Option.bind_eq_bind, Option.bind_some, a.word_eq product]
      rfl

theorem pos_of_mem_strides {dims : List Nat} (pos : ∀ n ∈ dims, 0 < n) :
    ∀ n ∈ strides dims, 0 < n := by
  induction dims with
  | nil => exact fun _ none => by cases none
  | cons m dims ih =>
    obtain ⟨-, others⟩ := List.forall_mem_cons.1 pos
    rw [strides_cons]
    exact List.forall_mem_cons.2 ⟨volume_pos others, ih others⟩

/-- A place in a row is reached by sums that are no larger. -/
theorem offsetIn_eq (a : Arithmetic) (sum : Nat) {strides start steps : List Nat}
    (pos : ∀ n ∈ strides, 0 < n)
    (word : IsWord (sum + offset strides (List.zipWith (· + ·) start steps))) :
    offsetIn a sum strides start steps =
      some (sum + offset strides (List.zipWith (· + ·) start steps)) := by
  induction strides generalizing sum start steps with
  | nil => simp [offsetIn, offset]
  | cons n strides ih =>
    cases start with
    | nil => simp [offsetIn, offset]
    | cons s start =>
      cases steps with
      | nil => simp [offsetIn, offset]
      | cons i steps =>
        rw [List.zipWith_cons_cons, offset, ← Nat.add_assoc] at word ⊢
        obtain ⟨first, others⟩ := List.forall_mem_cons.1 pos
        have total : IsWord (sum + (s + i) * n) := word.mono (Nat.le_add_right ..)
        have passed : IsWord ((s + i) * n) := total.mono (Nat.le_add_left ..)
        have index : IsWord (s + i) := passed.mono (Nat.le_mul_of_pos_right _ first)
        rw [offsetIn, a.word_eq index]
        simp only [Option.bind_eq_bind, Option.bind_some, a.word_eq passed, a.word_eq total]
        exact ih _ others word

/-- The position of a cell that is reached by words. -/
theorem positionIn_eq (a : Arithmetic) {strides start steps : List Nat}
    (pos : ∀ n ∈ strides, 0 < n)
    (row : IsWord (Dataset.rowOf (List.zipWith (· + ·) start steps)))
    (within : IsWord (offset strides (List.zipWith (· + ·) start steps).tail)) :
    positionIn a strides start steps = some (Dataset.rowOf (List.zipWith (· + ·) start steps),
      offset strides (List.zipWith (· + ·) start steps).tail) := by
  have tail : (List.zipWith (· + ·) start steps).tail =
      List.zipWith (· + ·) start.tail steps.tail := by
    cases start <;> cases steps <;> simp
  have first : rowIn a start steps = some (Dataset.rowOf (List.zipWith (· + ·) start steps)) := by
    cases start with
    | nil => rfl
    | cons s start =>
      cases steps with
      | nil => rfl
      | cons i steps => exact a.word_eq row
  rw [tail] at within ⊢
  have place := offsetIn_eq a 0 pos (by rwa [Nat.zero_add])
  rw [Nat.zero_add] at place
  rw [positionIn, first, place]
  rfl

end Selection

namespace Dataset

open Selection

variable {d : Dataset} {operation : String} {s : Selection} {index : List Nat}

/-- What a selection overruns is found alike, if it ends at words. -/
theorem overrunIn?_eq (a : Arithmetic) (axis : Nat) {start count : List Nat} (dims : List Nat)
    (ends : ∀ axis ∈ start.zip count, IsWord (axis.1 + axis.2)) :
    ∃ overrun, overrunIn? a axis start count dims = some overrun ∧
      overrun? axis start count dims = overrun.map .beyond := by
  induction start generalizing axis count dims with
  | nil => exact ⟨none, by cases count <;> cases dims <;> exact ⟨rfl, rfl⟩⟩
  | cons s start ih =>
    cases count with
    | nil => exact ⟨none, by cases dims <;> exact ⟨rfl, rfl⟩⟩
    | cons c count =>
      cases dims with
      | nil => exact ⟨none, rfl, rfl⟩
      | cons n dims =>
        obtain ⟨word, others⟩ := List.forall_mem_cons.1 ends
        rw [overrunIn?, overrun?, a.word_eq word]
        simp only [Option.bind_eq_bind, Option.bind_some, if_pos word]
        split
        · exact ih _ _ others
        · exact ⟨some axis, rfl, rfl⟩

/-- A selection that ends at words is checked as it is with numbers. -/
theorem checkSelectionIn_eq (a : Arithmetic)
    (ends : ∀ axis ∈ s.start.zip s.count, IsWord (axis.1 + axis.2)) :
    d.checkSelectionIn a operation s = some (d.checkSelection operation s) := by
  unfold checkSelectionIn checkSelection
  simp only
  split
  · rfl
  · obtain ⟨overrun, words, numbers⟩ :=
      overrunIn?_eq a 0 d.dims ends
    rw [words, numbers]
    simp only [Option.bind_eq_bind, Option.bind_some]
    match overrun with
    | none => rfl
    | some (axis + 1) => rfl
    | some 0 =>
      have last : IsWord (s.start.head?.getD 0 + (s.count.head?.getD 0 - 1)) := by
        obtain ⟨start, count⟩ := s
        cases start with
        | nil => cases words
        | cons i start =>
          cases count with
          | nil => cases words
          | cons n count =>
            exact (List.forall_mem_cons.1 ends).1.mono (Nat.add_le_add_left (Nat.sub_le ..) i)
      simp only [a.word_eq last, Option.bind_some]
      rfl

/-! ## Cells

The place in a chunk is below the length of the chunk, which was made with room for it. -/

theorem pos_of_inside {dims : List Nat} (inside : Inside dims index) : ∀ n ∈ dims, 0 < n := by
  induction inside with
  | nil => exact fun _ none => by cases none
  | cons low _ ih => exact List.forall_mem_cons.2 ⟨Nat.zero_lt_of_lt low, ih⟩

/-- The positions of the cells of a selection that the dataset takes. -/
theorem positionsIn_eq (a : Arithmetic) (row : IsCounted d.dims.tail) (addressed : s.Addressed)
    (checked : d.checkSelection operation s = .ok ()) :
    d.positionsIn a s = some (s.cells.map fun index => (rowOf index, d.within index)) := by
  obtain ⟨starts, counts, inside⟩ := checkSelection_eq_ok checked
  have lengths := starts.trans counts.symm
  rw [positionsIn, a.product_eq addressed.counted]
  simp only [Option.bind_eq_bind, Option.bind_some]
  split
  · next none =>
    have empty : s.cells = [] := List.eq_nil_of_length_eq_zero ((length_cells s lengths).trans none)
    rw [empty]
    rfl
  · next some =>
    -- there is a cell, so no extent is zero and a step passes no more cells than a row has
    obtain ⟨first, mem⟩ : ∃ index, index ∈ s.cells :=
      List.exists_mem_of_length_pos ((length_cells s lengths).symm ▸ Nat.pos_of_ne_zero some)
    have pos : ∀ n ∈ d.dims.tail, 0 < n := fun n mem' =>
      pos_of_inside (inside first mem) n (List.mem_of_mem_tail mem')
    rw [stridesIn_eq a pos row.isWord, Option.bind_some]
    refine mapM_eq_some ?_
    rw [cells, List.map_map, List.map_map]
    refine List.map_congr_left fun steps mem => ?_
    have here : List.zipWith (· + ·) s.start steps ∈ s.cells := List.mem_map_of_mem mem
    have words := isWord_of_has addressed.ends ((mem_cells lengths).1 here)
    have within := within_lt (spans_of_inside (inside _ here))
    refine positionIn_eq a (pos_of_mem_strides pos) ?_ (row.isWord.mono (Nat.le_of_lt within))
    cases index : List.zipWith (· + ·) s.start steps with
    | nil => decide
    | cons i rest => exact words i (index ▸ List.mem_cons_self)

theorem slotIn_eq (a : Arithmetic) (pos : 0 < d.chunkRows) (chunk : IsWord d.chunkLength)
    (spans : d.Spans index) :
    d.slotIn a d.rowLength (rowOf index, d.within index) = some (d.slotOf index) := by
  have slot : IsWord (d.slotOf index) := chunk.mono (Nat.le_of_lt (slotOf_lt pos spans))
  have rows : IsWord (rowOf index % d.chunkRows * d.rowLength) := slot.mono (Nat.le_add_right ..)
  rw [slotIn, a.word_eq rows]
  exact a.word_eq slot

theorem setCellIn_eq (a : Arithmetic) (chunked : d.Chunked) (chunk : IsWord d.chunkLength)
    (spans : d.Spans index) (v : Datum) :
    setCellIn a d.rowLength d.chunkLength d (rowOf index, d.within index) v =
      some (d.setCell index v) := by
  have size : ((d.chunks.get? (d.chunkOf index)).getD
      (Array.replicate d.chunkLength d.fill)).size = d.chunkLength := by
    cases found : d.chunks.get? (d.chunkOf index) with
    | none => exact Array.size_replicate
    | some chunk => exact chunked.size _ _ found
  have inside := slotOf_lt chunked.rows_pos spans
  rw [← size] at inside
  rw [setCellIn, slotIn_eq a chunked.rows_pos chunk spans]
  exact if_pos inside

theorem setCellsIn_eq (a : Arithmetic) (chunked : d.Chunked) (chunk : IsWord d.chunkLength)
    {cells : List (List Nat)} (spans : ∀ index ∈ cells, d.Spans index) (values : List Datum) :
    ((cells.map fun index => (rowOf index, d.within index)).zip values).foldlM
        (fun d' (position, v) => setCellIn a d.rowLength d.chunkLength d' position v) d =
      some (d.setCells cells values) := by
  induction cells generalizing d values with
  | nil => rfl
  | cons index cells ih =>
    cases values with
    | nil => rfl
    | cons v values =>
      obtain ⟨here, others⟩ := List.forall_mem_cons.1 spans
      rw [setCells_cons, List.map_cons, List.zip_cons_cons, List.foldlM_cons]
      simp only [setCellIn_eq a chunked chunk here, Option.bind_eq_bind, Option.bind_some]
      exact ih (chunked.setCell index v) chunk others values

/-- A cell is read in its chunk, if it has one. -/
theorem cellIn_eq (a : Arithmetic) (chunked : d.Chunked) (chunk : IsWord d.chunkLength)
    (spans : d.Spans index) :
    d.cellIn a d.rowLength (rowOf index, d.within index) = some (d.cell index) := by
  have slot := slotIn_eq a chunked.rows_pos chunk spans
  have inside := slotOf_lt chunked.rows_pos spans
  unfold cellIn cell
  show (match d.chunks.get? (d.chunkOf index) with
    | none => some d.fill
    | some chunk => d.slotIn a d.rowLength (rowOf index, d.within index) >>= (chunk[·]?)) = _
  cases found : d.chunks.get? (d.chunkOf index) with
  | none => rfl
  | some chunk =>
    rw [← chunked.size _ _ found] at inside
    simp only [slot, Option.bind_eq_bind, Option.bind_some, Array.getElem?_eq_getElem inside,
      Option.getD_some]

/-! ## Writes and reads -/

theorem Sized.write {d' : Dataset} (sized : d.Sized) {values : List Datum}
    (h : d.write operation s values = .ok d') : d'.Sized := by
  obtain ⟨-, -, rfl⟩ := write_eq_ok h
  obtain ⟨chunks, eq⟩ := setCells_eq d s.cells values
  rw [eq]
  exact ⟨sized.row, sized.chunk⟩

/-- A write does on words what it does on numbers, and does not stop. -/
theorem writeIn_eq (a : Arithmetic) (chunked : d.Chunked) (sized : d.Sized)
    (addressed : s.Addressed) (operation : String) (values : List Datum) :
    d.writeIn a operation s values = some (d.write operation s values) := by
  rw [writeIn, checkSelectionIn_eq a addressed.ends, write]
  cases checked : d.checkSelection operation s with
  | error err => rfl
  | ok _ =>
    have inside := (checkSelection_eq_ok checked).2.2
    have written := setCellsIn_eq a chunked sized.chunk
      (fun index mem => spans_of_inside (inside index mem)) values
    have product : a.word (d.chunkRows * max d.rowLength 1) = some d.chunkLength :=
      a.word_eq sized.chunk
    simp only [Option.bind_eq_bind, Option.bind_some, positionsIn_eq a sized.row addressed checked,
      List.length_map, a.product_eq sized.row]
    show (if s.cells.length ≠ values.length then _ else _) = _
    split
    · rfl
    · show (a.word (d.chunkRows * max d.rowLength 1)).bind _ = _
      rw [product, Option.bind_some]
      exact Answer.bind_eq written fun written => some (Except.ok written)

theorem readIn_eq (a : Arithmetic) (chunked : d.Chunked) (sized : d.Sized)
    (addressed : s.Addressed) (operation : String) :
    d.readIn a operation s = some (d.read operation s) := by
  rw [readIn, checkSelectionIn_eq a addressed.ends, read]
  cases checked : d.checkSelection operation s with
  | error err => rfl
  | ok _ =>
    have inside := (checkSelection_eq_ok checked).2.2
    have cells : ((s.cells.map fun index => (rowOf index, d.within index)).mapM
        (d.cellIn a d.rowLength)) = some (s.cells.map d.cell) := by
      refine mapM_eq_some ?_
      rw [List.map_map, List.map_map]
      exact List.map_congr_left fun index mem =>
        cellIn_eq a chunked sized.chunk (spans_of_inside (inside index mem))
    simp only [Option.bind_eq_bind, Option.bind_some, positionsIn_eq a sized.row addressed checked,
      a.product_eq sized.row]
    exact Answer.bind_eq cells fun values => some (Except.ok values)

end Dataset
end StudyArchive
