import Mathlib.Data.List.Flatten
import StudyArchive.Proofs.Dataset.Rows
/-
# Blocks

The cells below some leading indices are a block of a dataset, in row-major order: a row is the
block of its index, and a matrix of a list of matrices is that of two indices.  A write over a block
leaves all other cells as they were (`Dataset.wroteAt_of_write`), and a block whose parts were
written one after the other holds them one after the other (`Dataset.BlocksFrom.whole`).
-/

namespace StudyArchive

namespace Selection

/-- All the cells below some leading indices. -/
def ofBlock (lead extents : List Nat) : Selection :=
  ⟨lead ++ extents.map fun _ => 0, lead.map (fun _ => 1) ++ extents⟩

theorem tuples_lead (lead start count : List Nat) :
    tuples (lead ++ start) (lead.map (fun _ => 1) ++ count) =
      (tuples start count).map (lead ++ ·) := by
  induction lead with
  | nil => simp
  | cons i lead ih =>
    rw [List.cons_append, List.map_cons, List.cons_append, tuples, ih]
    simp [Function.comp_def]

theorem cells_ofBlock (lead extents : List Nat) :
    (ofBlock lead extents).cells = (indices extents).map (lead ++ ·) := by
  rw [cells_eq_tuples _ (by simp [ofBlock]), ofBlock, tuples_lead, indices]

theorem indices_cons (n : Nat) (dims : List Nat) :
    indices (n :: dims) = (List.range n).flatMap fun k => (indices dims).map (k :: ·) := by
  simp [indices, tuples]

end Selection

namespace Dataset

open Selection

variable {d d' : Dataset} {lead : List Nat}

/-- The data below some leading indices. -/
def block (d : Dataset) (lead : List Nat) : List Datum :=
  (indices (d.dims.drop lead.length)).map fun rest => d.cell (lead ++ rest)

theorem row_eq_block {n : Nat} {tail : List Nat} (dims : d.dims = n :: tail) (i : Nat) :
    d.row i = d.block [i] := by
  rw [row, cells_rowSelection dims, List.map_map, block, dims]
  rfl

theorem length_block (d : Dataset) (lead : List Nat) :
    (d.block lead).length = volume (d.dims.drop lead.length) := by
  rw [block, List.length_map, length_indices]

/-- A block consists of those below it, one for each index of the next axis. -/
theorem block_eq_flatMap {n : Nat} {rest : List Nat} (dims : d.dims.drop lead.length = n :: rest) :
    d.block lead = (List.range n).flatMap fun k => d.block (lead ++ [k]) := by
  have inner (k : Nat) : d.dims.drop (lead ++ [k]).length = rest := by
    rw [List.length_append, ← List.drop_drop, dims]
    rfl
  simp only [block, dims, inner, indices_cons, List.map_flatMap, List.map_map, Function.comp_def,
    List.append_assoc, List.singleton_append]

/-- What a block holds tells what the blocks below it hold, if they are given in parts of their
size. -/
theorem block_of_parts {rest : List Nat} {parts : List (List Datum)}
    (dims : d.dims.drop lead.length = parts.length :: rest) (whole : d.block lead = parts.flatten)
    (sizes : ∀ v ∈ parts, v.length = volume rest) {k : Nat} {v : List Datum}
    (part : parts[k]? = some v) : d.block (lead ++ [k]) = v := by
  have inner (k : Nat) : (d.block (lead ++ [k])).length = volume rest := by
    rw [length_block, List.length_append, ← List.drop_drop, dims]
    rfl
  rw [block_eq_flatMap dims, List.flatMap_def] at whole
  have same := List.eq_iff_flatten_eq.2 ⟨whole, by
    rw [List.map_congr_left sizes, List.map_map]
    simp [Function.comp_def, inner]⟩
  have low := (List.getElem?_eq_some_iff.1 part).1
  rw [← same, List.getElem?_map, List.getElem?_range low] at part
  exact Option.some.inj part

/-! ## One block -/

/-- A dataset in which a block was written over, the other cells being as they were. -/
structure WroteAt (d : Dataset) (lead : List Nat) (values : List Datum) (d' : Dataset) : Prop where
  alike : Alike d d'
  dims : d'.dims = d.dims
  scales : d'.scales = d.scales
  room : values ≠ [] → Inside (d.dims.take lead.length) lead
  here : d'.block lead = values
  apart : ∀ index, d.Spans index → ¬lead <+: index → d'.cell index = d.cell index

theorem wroteAt_of_write (sound : d.Sound) {operation : String} {values : List Datum}
    (h : d.write operation (.ofBlock lead (d.dims.drop lead.length)) values = .ok d') :
    WroteAt d lead values d' := by
  obtain ⟨alike, dims⟩ := alike_of_write h
  obtain ⟨checked, count, -⟩ := write_eq_ok h
  have cells := cells_ofBlock lead (d.dims.drop lead.length)
  refine ⟨alike, dims, scales_of_write h, fun some => ?_, ?_, fun index spans other => ?_⟩
  · have none : (ofBlock lead (d.dims.drop lead.length)).cells ≠ [] := by
      intro empty
      rw [empty] at count
      exact some (List.eq_nil_of_length_eq_zero count.symm)
    obtain ⟨index, mem⟩ := List.exists_mem_of_ne_nil _ none
    have inside := (checkSelection_eq_ok checked).2.2 index mem
    rw [cells] at mem
    obtain ⟨rest, -, rfl⟩ := List.mem_map.1 mem
    have front := List.forall₂_take lead.length inside
    rwa [List.take_left] at front
  · have written := map_cell_of_write sound.toChunked h
    rw [cells, List.map_map] at written
    rw [block, dims]
    exact written
  · refine cell_of_write_of_not_mem sound.toChunked h spans fun mem => other ?_
    rw [cells] at mem
    obtain ⟨rest, -, rfl⟩ := List.mem_map.1 mem
    exact List.prefix_append lead rest

theorem WroteAt.wrote {n : Nat} {tail : List Nat} {i : Nat} {values : List Datum}
    (h : WroteAt d [i] values d') (dims : d.dims = n :: tail) : Wrote d i values d' where
  alike := h.alike
  dims := h.dims
  here := (row_eq_block (h.dims.trans dims) i).trans h.here
  apart k other := by
    refine row_eq_of_cell dims (h.dims.trans dims) fun rest inside => ?_
    refine h.apart _ (spans_cons dims inside) fun front => other ?_
    exact (List.cons_prefix_cons.1 front).1.symm

/-! ## Blocks one after the other

Induction on the number of blocks: those written so far are followed by those to come. -/

/-- A dataset in which blocks were written one after the other, from an index of the next axis
on. -/
structure BlocksFrom (d : Dataset) (lead : List Nat) (k : Nat) (parts : List (List Datum))
    (d' : Dataset) : Prop where
  alike : Alike d d'
  dims : d'.dims = d.dims
  scales : d'.scales = d.scales
  room : ∀ v ∈ parts, v ≠ [] → Inside (d.dims.take lead.length) lead
  here : ∀ j v, parts[j]? = some v → d'.block (lead ++ [k + j]) = v
  apart : ∀ index, d.Spans index → (∀ j, k ≤ j → ¬lead ++ [j] <+: index) →
    d'.cell index = d.cell index

namespace BlocksFrom

variable {k : Nat} {v : List Datum} {parts : List (List Datum)}

theorem nil (d : Dataset) (lead : List Nat) (k : Nat) : BlocksFrom d lead k [] d where
  alike := .refl d
  dims := rfl
  scales := rfl
  room _ mem := absurd mem List.not_mem_nil
  here _ _ part := by simp at part
  apart _ _ _ := rfl

/-- A block that was written stays as it is while the next ones are written. -/
theorem block_eq {d₁ : Dataset} (h : WroteAt d (lead ++ [k]) v d₁)
    (h' : BlocksFrom d₁ lead (k + 1) parts d') : d'.block (lead ++ [k]) = v := by
  refine Eq.trans ?_ h.here
  unfold block
  rw [h'.dims]
  refine List.map_congr_left fun rest mem => ?_
  have inner := mem_indices.1 mem
  have some : v ≠ [] := by
    rw [← h.here, block]
    exact fun none => List.ne_nil_of_mem mem (List.map_eq_nil_iff.1 none)
  rw [h.dims] at inner
  have inside : Inside d₁.dims (lead ++ [k] ++ rest) := by
    rw [h.dims, ← List.take_append_drop (lead ++ [k]).length d.dims]
    exact List.rel_append (h.room some) inner
  refine h'.apart _ (spans_of_inside inside) fun j later front => ?_
  rw [List.append_assoc, List.prefix_append_right_inj] at front
  have same := (List.cons_prefix_cons.1 front).1
  omega

theorem cons {d₁ : Dataset} (h : WroteAt d (lead ++ [k]) v d₁)
    (h' : BlocksFrom d₁ lead (k + 1) parts d') : BlocksFrom d lead k (v :: parts) d' where
  alike := h.alike.trans h'.alike
  dims := h'.dims.trans h.dims
  scales := h'.scales.trans h.scales
  room w mem some := by
    rcases List.mem_cons.1 mem with rfl | mem
    · have front := List.forall₂_take lead.length (h.room some)
      rwa [List.take_left, List.take_take, List.length_append, Nat.min_eq_left (by simp)] at front
    · rw [← h.dims]
      exact h'.room w mem some
  here j w part := by
    cases j with
    | zero =>
      cases part
      exact block_eq h h'
    | succ j =>
      have there := h'.here j w part
      rwa [Nat.add_right_comm] at there
  apart index spans other := by
    have spans₁ : d₁.Spans index := by
      simpa only [Spans, rank, h.dims] using spans
    rw [h'.apart index spans₁ fun j later => other j (by omega)]
    exact h.apart index spans (other k (Nat.le_refl k))

/-- Where as many blocks were written as there is room for, the block that they make up was. -/
theorem whole {rest : List Nat} (h : BlocksFrom d lead 0 parts d')
    (dims : d.dims.drop lead.length = parts.length :: rest) :
    WroteAt d lead parts.flatten d' where
  alike := h.alike
  dims := h.dims
  scales := h.scales
  room some := by
    obtain ⟨datum, mem⟩ := List.exists_mem_of_ne_nil _ some
    obtain ⟨v, part, mem⟩ := List.mem_flatten.1 mem
    exact h.room v part (List.ne_nil_of_mem mem)
  here := by
    rw [block_eq_flatMap (h.dims ▸ dims), List.flatMap_def]
    refine congrArg List.flatten (List.ext_getElem (by simp) fun k low low' => ?_)
    have part := h.here k _ (List.getElem?_eq_getElem low')
    rw [Nat.zero_add] at part
    rw [List.getElem_map, List.getElem_range, part]
  apart index spans other := by
    refine h.apart index spans fun j _ front => other ?_
    exact (List.prefix_append lead [j]).trans front

end BlocksFrom

end Dataset
end StudyArchive
