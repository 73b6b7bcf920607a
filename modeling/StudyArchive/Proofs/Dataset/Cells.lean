import StudyArchive.Dataset.Basic
import StudyArchive.Proofs.Dataset.Places
import StudyArchive.Proofs.Step
/-
# What cells hold

A dataset keeps its cells in chunks, but it behaves as a map from indices to values: a write changes
exactly the cells of its selection (`Dataset.cell_of_write`, `Dataset.cell_of_write_of_not_mem`),
growing changes none, and a row that was not written yet holds the fill.  What makes this true is
`Dataset.Sound`, which a new dataset has and every change keeps.
-/

namespace StudyArchive

namespace Dataset

/-- An index names a cell of a row, whether or not the row is there yet. -/
def Spans (d : Dataset) (index : List Nat) : Prop :=
  index.length = d.rank ∧ Inside d.dims.tail index.tail

/-- A chunk has rows, and room for all their cells. -/
structure Chunked (d : Dataset) : Prop where
  rows_pos : 0 < d.chunkRows
  size : ∀ k chunk, d.chunks.get? k = some chunk → chunk.size = d.chunkLength

/-- What every dataset that a container makes satisfies. -/
structure Sound (d : Dataset) : Prop extends Chunked d where
  /-- A dataset that grows has an axis to grow along. -/
  axis_of_extensible : d.extensible = true → d.dims ≠ []
  /-- There is one list of scales for each axis. -/
  scales_length : d.scales.length = d.dims.length
  /-- Beyond the last row there is nothing but the fill. -/
  beyond : ∀ index, d.Spans index → d.rows ≤ rowOf index → d.cell index = d.fill

/-! ## Places of cells -/

theorem within_eq {d : Dataset} {index : List Nat} (spans : d.Spans index) :
    d.within index = Selection.rowMajor d.dims.tail index.tail :=
  Selection.offset_strides spans.2.length_eq

theorem within_lt {d : Dataset} {index : List Nat} (spans : d.Spans index) :
    d.within index < d.rowLength := by
  rw [within_eq spans]
  exact Selection.rowMajor_lt spans.2

theorem slotOf_lt {d : Dataset} (pos : 0 < d.chunkRows) {index : List Nat}
    (spans : d.Spans index) : d.slotOf index < d.chunkLength := by
  have row := Nat.mod_lt (rowOf index) pos
  have within := within_lt spans
  calc d.slotOf index
      = rowOf index % d.chunkRows * d.rowLength + d.within index := rfl
    _ < rowOf index % d.chunkRows * d.rowLength + d.rowLength := by omega
    _ = (rowOf index % d.chunkRows + 1) * d.rowLength := (Nat.succ_mul ..).symm
    _ ≤ d.chunkRows * d.rowLength := Nat.mul_le_mul_right _ row
    _ ≤ d.chunkLength := Nat.mul_le_mul_left _ (Nat.le_max_left ..)

/-- Cells at one place of one chunk are one cell. -/
theorem eq_of_place {d : Dataset} {a b : List Nat} (ha : d.Spans a) (hb : d.Spans b)
    (chunk : d.chunkOf a = d.chunkOf b) (slot : d.slotOf a = d.slotOf b) : a = b := by
  obtain ⟨row, within⟩ := Selection.mul_add_inj (within_lt ha) (within_lt hb) slot
  have rows : rowOf a = rowOf b := by
    have left := Nat.div_add_mod (rowOf a) d.chunkRows
    have right := Nat.div_add_mod (rowOf b) d.chunkRows
    simp only [chunkOf] at chunk
    rw [← left, ← right, chunk, row]
  rw [within_eq ha, within_eq hb] at within
  have tails := Selection.rowMajor_injective ha.2 hb.2 within
  have lengths := ha.1.trans hb.1.symm
  cases a with
  | nil => exact (List.eq_nil_of_length_eq_zero lengths.symm).symm
  | cons i a =>
    cases b with
    | nil => cases lengths
    | cons j b =>
      simp only [rowOf, List.head?_cons, Option.getD_some] at rows
      simp only [List.tail_cons] at tails
      rw [rows, tails]

/-! ## Writing one cell

A chunk that is absent is filled first, which no other cell can tell from before. -/

theorem setCell_eq (d : Dataset) (index : List Nat) (v : Datum) :
    ∃ chunks, d.setCell index v = { d with chunks } := ⟨_, rfl⟩

theorem cell_eq (d : Dataset) (index : List Nat) : d.cell index =
    ((d.chunks.get? (d.chunkOf index)).bind fun chunk => chunk[d.slotOf index]?).getD d.fill := by
  unfold cell
  cases d.chunks.get? (d.chunkOf index) <;> rfl

theorem cell_setCell {d : Dataset} (chunked : d.Chunked) {a b : List Nat} (ha : d.Spans a)
    (hb : d.Spans b) (v : Datum) : (d.setCell a v).cell b = if a = b then v else d.cell b := by
  have slot := slotOf_lt chunked.rows_pos ha
  have after : (d.setCell a v).cell b = (((d.chunks.insert (d.chunkOf a) _).get?
      (d.chunkOf b)).bind fun chunk => chunk[d.slotOf b]?).getD d.fill := cell_eq ..
  rw [after]
  by_cases chunk : d.chunkOf a = d.chunkOf b
  · rw [← chunk, SortedMap.get?_insert_self]
    simp only [Option.bind_some, Array.getElem?_setIfInBounds]
    by_cases same : a = b
    · subst same
      have size : ((d.chunks.get? (d.chunkOf a)).getD
          (Array.replicate d.chunkLength d.fill)).size = d.chunkLength := by
        cases found : d.chunks.get? (d.chunkOf a) with
        | none => simp
        | some chunk => exact chunked.size _ _ found
      simp [size, slot]
    · have apart : d.slotOf a ≠ d.slotOf b := fun slots => same (eq_of_place ha hb chunk slots)
      simp only [apart, if_false, same, cell_eq, ← chunk]
      cases found : d.chunks.get? (d.chunkOf a) with
      | some chunk => rfl
      | none =>
        simp only [Option.getD_none]
        rw [Array.getElem?_replicate]
        split <;> rfl
  · have apart : a ≠ b := fun same => chunk (by rw [same])
    rw [SortedMap.get?_insert_of_ne _ _ chunk, if_neg apart, cell_eq]

theorem Chunked.setCell {d : Dataset} (chunked : d.Chunked) (index : List Nat) (v : Datum) :
    (d.setCell index v).Chunked := by
  refine ⟨chunked.rows_pos, fun k chunk found => ?_⟩
  show chunk.size = d.chunkLength
  by_cases here : d.chunkOf index = k
  · subst here
    have written : (d.setCell index v).chunks.get? (d.chunkOf index) = some
        (((d.chunks.get? (d.chunkOf index)).getD
          (Array.replicate d.chunkLength d.fill)).setIfInBounds (d.slotOf index) v) :=
      SortedMap.get?_insert_self ..
    rw [written] at found
    cases found
    rw [Array.size_setIfInBounds]
    cases old : d.chunks.get? (d.chunkOf index) with
    | none => simp
    | some chunk => exact chunked.size _ _ old
  · have kept : (d.setCell index v).chunks.get? k = d.chunks.get? k :=
      SortedMap.get?_insert_of_ne _ _ here
    exact chunked.size k chunk (kept ▸ found)

/-! ## Writing cells one after the other -/

theorem setCells_cons (d : Dataset) (index : List Nat) (cells : List (List Nat)) (v : Datum)
    (values : List Datum) :
    d.setCells (index :: cells) (v :: values) = (d.setCell index v).setCells cells values := rfl

theorem setCells_eq (d : Dataset) (cells : List (List Nat)) (values : List Datum) :
    ∃ chunks, d.setCells cells values = { d with chunks } := by
  unfold setCells
  generalize cells.zip values = pairs
  induction pairs generalizing d with
  | nil => exact ⟨d.chunks, rfl⟩
  | cons pair pairs ih =>
    obtain ⟨first, eq⟩ := setCell_eq d pair.1 pair.2
    obtain ⟨chunks, eq'⟩ := ih (d.setCell pair.1 pair.2)
    exact ⟨chunks, by rw [List.foldl_cons, eq', eq]⟩

theorem Chunked.setCells {d : Dataset} (chunked : d.Chunked) (cells : List (List Nat))
    (values : List Datum) : (d.setCells cells values).Chunked := by
  induction cells generalizing d values with
  | nil => exact chunked
  | cons a cells ih =>
    cases values with
    | nil => exact chunked
    | cons v values =>
      rw [setCells_cons]
      exact ih (chunked.setCell a v) values

theorem cell_setCells_of_not_mem {d : Dataset} (chunked : d.Chunked) {cells : List (List Nat)}
    {values : List Datum} (spans : ∀ a ∈ cells, d.Spans a) {index : List Nat}
    (here : d.Spans index) (apart : index ∉ cells) :
    (d.setCells cells values).cell index = d.cell index := by
  induction cells generalizing d values with
  | nil => rfl
  | cons a cells ih =>
    cases values with
    | nil => rfl
    | cons v values =>
      simp only [List.mem_cons, not_or] at apart
      have later : ∀ b ∈ cells, (d.setCell a v).Spans b :=
        fun b hb => spans b (List.mem_cons_of_mem _ hb)
      rw [setCells_cons, ih (chunked.setCell a v) later here apart.2,
        cell_setCell chunked (spans a (List.mem_cons_self ..)) here,
        if_neg fun same => apart.1 same.symm]

/-- The cells that are written hold the values written to them, in order. -/
theorem cell_setCells {d : Dataset} (chunked : d.Chunked) {cells : List (List Nat)}
    {values : List Datum} (spans : ∀ a ∈ cells, d.Spans a) (once : cells.Nodup) {k : Nat}
    {index : List Nat} {v : Datum} (hindex : cells[k]? = some index) (hv : values[k]? = some v) :
    (d.setCells cells values).cell index = v := by
  induction cells generalizing d values k with
  | nil => simp at hindex
  | cons a cells ih =>
    cases values with
    | nil => simp at hv
    | cons w values =>
      obtain ⟨fresh, once⟩ := List.nodup_cons.1 once
      have later : ∀ b ∈ cells, (d.setCell a w).Spans b :=
        fun b hb => spans b (List.mem_cons_of_mem _ hb)
      have here := spans a (List.mem_cons_self ..)
      rw [setCells_cons]
      cases k with
      | zero =>
        simp only [List.getElem?_cons_zero, Option.some.injEq] at hindex hv
        subst hindex hv
        rw [cell_setCells_of_not_mem (chunked.setCell a w) later here fresh,
          cell_setCell chunked here here, if_pos rfl]
      | succ k =>
        simp only [List.getElem?_cons_succ] at hindex hv
        exact ih (chunked.setCell a w) later once hindex hv

/-! ## Selections -/

/-- Extents of a selection that stay within the extents of the dataset, axis by axis. -/
theorem forall₂_of_overrun? {axis : Nat} {start count dims : List Nat}
    (rank : start.length = dims.length) (rank' : count.length = dims.length)
    (h : overrun? axis start count dims = none) :
    List.Forall₂ (fun sc d => sc.1 + sc.2 ≤ d) (start.zip count) dims := by
  induction dims generalizing axis start count with
  | nil =>
    obtain rfl := List.eq_nil_of_length_eq_zero rank
    exact .nil
  | cons n dims ih =>
    cases start with
    | nil => cases rank
    | cons s start =>
      cases count with
      | nil => cases rank'
      | cons c count =>
        rw [overrun?] at h
        split at h
        · next low => exact .cons low (ih (by simpa using rank) (by simpa using rank') h)
        · cases h

/-- A selection that a dataset accepts has its rank and stays within its extents. -/
theorem fits_of_check {d : Dataset} {operation : String} {s : Selection}
    (h : d.checkSelection operation s = .ok ()) :
    s.start.length = d.rank ∧ s.count.length = d.rank ∧
      List.Forall₂ (fun sc d => sc.1 + sc.2 ≤ d) (s.start.zip s.count) d.dims := by
  unfold checkSelection at h
  simp only at h
  split at h
  · cases h
  · next ranks =>
    simp only [not_or, ne_eq, Decidable.not_not] at ranks
    split at h
    · next none => exact ⟨ranks.1, ranks.2, forall₂_of_overrun? ranks.1 ranks.2 none⟩
    all_goals cases h

/-- An index of the box of a selection that a dataset accepts is an index of the dataset. -/
theorem checkSelection_eq_ok {d : Dataset} {operation : String} {s : Selection}
    (h : d.checkSelection operation s = .ok ()) :
    s.start.length = d.rank ∧ s.count.length = d.rank ∧
      ∀ index ∈ s.cells, Inside d.dims index := by
  obtain ⟨starts, counts, within⟩ := fits_of_check h
  refine ⟨starts, counts, fun index mem => ?_⟩
  exact ((Selection.mem_cells (starts.trans counts.symm)).1 mem).inside within

theorem spans_of_inside {d : Dataset} {index : List Nat} (inside : Inside d.dims index) :
    d.Spans index := by
  refine ⟨inside.length_eq, ?_⟩
  revert inside
  generalize d.dims = dims
  rintro (_ | ⟨-, rest⟩)
  · exact .nil
  · exact rest

theorem rowOf_lt {d : Dataset} {index : List Nat} (inside : Inside d.dims index) :
    rowOf index < d.rows := by
  unfold rowOf rows
  revert inside
  generalize d.dims = dims
  rintro (_ | ⟨low, -⟩)
  · exact Nat.one_pos
  · exact low

/-! ## Writes -/

theorem write_eq_ok {d d' : Dataset} {operation : String} {s : Selection} {values : List Datum}
    (h : d.write operation s values = .ok d') :
    d.checkSelection operation s = .ok () ∧ s.cells.length = values.length ∧
      d' = d.setCells s.cells values := by
  obtain ⟨⟨⟩, checked, h⟩ := exists_of_bind_eq_ok h
  simp only at h
  split at h
  · cases h
  · next count =>
    cases h
    exact ⟨checked, Decidable.not_not.1 count, rfl⟩

/-- After a write, a cell of the selection holds the value written to it. -/
theorem cell_of_write {d d' : Dataset} (chunked : d.Chunked) {operation : String} {s : Selection}
    {values : List Datum} (h : d.write operation s values = .ok d') {k : Nat} {index : List Nat}
    {v : Datum} (hindex : s.cells[k]? = some index) (hv : values[k]? = some v) :
    d'.cell index = v := by
  obtain ⟨checked, -, rfl⟩ := write_eq_ok h
  obtain ⟨starts, counts, inside⟩ := checkSelection_eq_ok checked
  have spans : ∀ a ∈ s.cells, d.Spans a := fun a mem => spans_of_inside (inside a mem)
  exact cell_setCells chunked spans (Selection.nodup_cells (starts.trans counts.symm)) hindex hv

/-- After a write, the cells of the selection hold its values, one after the other. -/
theorem map_cell_of_write {d d' : Dataset} (chunked : d.Chunked) {operation : String}
    {s : Selection} {values : List Datum} (h : d.write operation s values = .ok d') :
    s.cells.map d'.cell = values := by
  have count := (write_eq_ok h).2.1
  refine List.ext_getElem? fun k => ?_
  rw [List.getElem?_map]
  rcases Nat.lt_or_ge k values.length with low | high
  · have index := List.getElem?_eq_getElem (count ▸ low)
    have value := List.getElem?_eq_getElem low
    rw [index, value]
    exact congrArg some (cell_of_write chunked h index value)
  · rw [List.getElem?_eq_none (count ▸ high), List.getElem?_eq_none high]
    rfl

/-- After a write, a cell outside the selection holds what it held. -/
theorem cell_of_write_of_not_mem {d d' : Dataset} (chunked : d.Chunked) {operation : String}
    {s : Selection} {values : List Datum} (h : d.write operation s values = .ok d')
    {index : List Nat} (here : d.Spans index) (apart : index ∉ s.cells) :
    d'.cell index = d.cell index := by
  obtain ⟨checked, -, rfl⟩ := write_eq_ok h
  have spans : ∀ a ∈ s.cells, d.Spans a :=
    fun a mem => spans_of_inside ((checkSelection_eq_ok checked).2.2 a mem)
  exact cell_setCells_of_not_mem chunked spans here apart

/-! ## What every change keeps

The chunks are of one length, and the scales as many as the axes. -/

theorem scalesAt_new (path : Path) (type : DataType) (dims : List Nat) (extensible : Bool)
    (chunkRows : Nat) (fill : Datum) (axis : Nat) :
    (new path type dims extensible chunkRows fill).scalesAt axis = [] := by
  simp only [scalesAt, new, List.getElem?_map]
  cases dims[axis]? <;> rfl

theorem sound_new {path : Path} {type : DataType} {dims : List Nat} {extensible : Bool}
    {chunkRows : Nat} {fill : Datum} (axis : ¬(extensible = true ∧ dims = [])) :
    (new path type dims extensible chunkRows fill).Sound where
  axis_of_extensible := fun grows none => axis ⟨grows, none⟩
  rows_pos := Nat.lt_of_lt_of_le Nat.one_pos (Nat.le_max_right ..)
  scales_length := by simp [new]
  size := fun k chunk found => by cases found
  beyond := fun _ _ _ => rfl

theorem Sound.write {d d' : Dataset} (sound : d.Sound) {operation : String} {s : Selection}
    {values : List Datum} (h : d.write operation s values = .ok d') : d'.Sound := by
  have frame {index : List Nat} (here : d.Spans index) (apart : index ∉ s.cells) :
      d'.cell index = d.cell index := cell_of_write_of_not_mem sound.toChunked h here apart
  obtain ⟨checked, -, rfl⟩ := write_eq_ok h
  have chunked := sound.toChunked.setCells s.cells values
  obtain ⟨chunks, eq⟩ := setCells_eq d s.cells values
  rw [eq] at chunked frame ⊢
  refine ⟨chunked, sound.axis_of_extensible, sound.scales_length, fun index here below => ?_⟩
  have apart : index ∉ s.cells := fun mem =>
    absurd (rowOf_lt ((checkSelection_eq_ok checked).2.2 index mem)) (Nat.not_lt_of_le below)
  rw [frame here apart]
  exact sound.beyond index here below

theorem extend_eq_ok {d d' : Dataset} {extent : Nat} (h : d.extend extent = .ok d') :
    ∃ old rest, d.extensible = true ∧ d.dims = old :: rest ∧ old ≤ extent ∧
      d' = { d with dims := extent :: rest } := by
  unfold extend at h
  split at h
  · next old rest grows dims =>
    split at h
    · cases h
    · next low =>
      cases h
      exact ⟨old, rest, grows, dims, Nat.le_of_not_lt low, rfl⟩
  · cases h

theorem cell_of_extend {d d' : Dataset} {extent : Nat} (h : d.extend extent = .ok d')
    (index : List Nat) : d'.cell index = d.cell index := by
  obtain ⟨old, rest, -, dims, -, rfl⟩ := extend_eq_ok h
  simp only [cell, chunkOf, slotOf, rowLength, within, dims, List.tail_cons]

theorem Sound.extend {d d' : Dataset} (sound : d.Sound) {extent : Nat}
    (h : d.extend extent = .ok d') : d'.Sound := by
  have cells := cell_of_extend h
  obtain ⟨old, rest, grows, dims, low, rfl⟩ := extend_eq_ok h
  refine ⟨⟨sound.rows_pos, fun k chunk found => ?_⟩, fun _ => List.cons_ne_nil _ _, ?_, ?_⟩
  · have size := sound.size k chunk found
    simpa only [chunkLength, rowLength, dims, List.tail_cons] using size
  · simpa [dims] using sound.scales_length
  · intro index here below
    rw [cells]
    refine sound.beyond index ⟨?_, ?_⟩ ?_
    · simpa [rank, dims] using here.1
    · simpa [dims] using here.2
    · have old_rows : d.rows = old := by simp [Dataset.rows, dims]
      have new_rows : extent ≤ rowOf index := by simpa [Dataset.rows] using below
      exact old_rows ▸ Nat.le_trans low new_rows

/-- Attaching a scale leaves those that are attached where they are. -/
theorem attachScale_eq_ok {d d' : Dataset} {axis : Nat} {s : AttachedScale}
    (h : d.attachScale axis s = .ok d') :
    ∃ scales, scales.length = d.scales.length ∧ d' = { d with scales } ∧
      ∀ k, d.scalesAt k <+: d'.scalesAt k := by
  unfold Dataset.attachScale at h
  split at h
  · cases h
  · split at h
    · cases h
      exact ⟨d.scales, rfl, rfl, fun _ => List.prefix_rfl⟩
    · cases h
      refine ⟨d.scales.modify axis (· ++ [s]), by simp, rfl, fun k => ?_⟩
      simp only [scalesAt, List.getElem?_modify]
      cases d.scales[k]? with
      | none => exact List.prefix_rfl
      | some attached =>
        simp only [Option.getD_some]
        split
        · exact List.prefix_append attached [s]
        · exact List.prefix_rfl

/-- Attaching a scale is a matter of its axis; on an axis without any, it becomes the only one. -/
theorem scalesAt_of_attachScale {d d' : Dataset} {axis : Nat} {s : AttachedScale}
    (h : d.attachScale axis s = .ok d') :
    (∀ k, k ≠ axis → d'.scalesAt k = d.scalesAt k) ∧
      (d.scalesAt axis = [] → d'.scalesAt axis = [s]) := by
  unfold Dataset.attachScale at h
  split at h
  · cases h
  · next inside =>
    split at h
    · next there =>
      cases h
      refine ⟨fun _ _ => rfl, fun none => ?_⟩
      rw [none] at there
      cases there
    · cases h
      refine ⟨fun k other => ?_, fun none => ?_⟩
      · rw [scalesAt, scalesAt, List.getElem?_modify_ne _ _ (Ne.symm other)]
      · obtain ⟨attached, here⟩ : ∃ attached, d.scales[axis]? = some attached :=
          ⟨_, List.getElem?_eq_getElem (Nat.lt_of_not_le inside)⟩
        have none : attached = [] := by rwa [scalesAt, here] at none
        simp only [scalesAt, List.getElem?_modify_eq, here, none]
        rfl

theorem Sound.attachScale {d d' : Dataset} (sound : d.Sound) {axis : Nat} {s : AttachedScale}
    (h : d.attachScale axis s = .ok d') : d'.Sound := by
  obtain ⟨scales, length, rfl, -⟩ := attachScale_eq_ok h
  exact ⟨⟨sound.rows_pos, sound.size⟩, sound.axis_of_extensible,
    length.trans sound.scales_length, sound.beyond⟩

theorem Sound.markScale {d : Dataset} (sound : d.Sound) (name : String) :
    (d.markScale name).Sound :=
  ⟨⟨sound.rows_pos, sound.size⟩, sound.axis_of_extensible, sound.scales_length, sound.beyond⟩

theorem Sound.setAttributes {d : Dataset} (sound : d.Sound)
    (attributes : SortedMap String AttrValue) : ({ d with attributes }).Sound :=
  ⟨⟨sound.rows_pos, sound.size⟩, sound.axis_of_extensible, sound.scales_length, sound.beyond⟩

end Dataset
end StudyArchive
