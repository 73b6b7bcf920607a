import StudyArchive.Proofs.Archive.RowValue
import StudyArchive.Proofs.Archive.Rows
import StudyArchive.Proofs.Archive.Touched
/-
# Growing datasets as lists of rows

A dataset that was made without rows is a list of rows: an append puts a value at its end, a
reservation puts the fill there, and setting a row replaces that one.  `Archive.RowHistory` goes
along with the calls and keeps this list beside the archive, whatever else is asked of the archive
on the way.  At any time the extents of the dataset and the readers tell the list
(`Archive.RowHistory.reads_rows`).
-/

namespace StudyArchive

/-- The value of an element type that new cells hold if no other is asked for. -/
def ElementType.zero : (e : ElementType) → e.Value
  | int32 => (0 : Int32)
  | int64 => (0 : Int64)
  | uint64 => (0 : UInt64)
  | real => Binary64.zero
  | text => ""

theorem ElementType.toDatum_zero (e : ElementType) : e.toDatum e.zero = .zero (.scalar e) := by
  cases e <;> rfl

/-! ## Datasets that list rows -/

namespace Dataset

/-- A dataset that holds given rows; one without a value holds the fill. -/
structure ListsRows (d : Dataset) (e : ElementType) (tail : List Nat) (fill : e.Value)
    (rows : List (Option RowValue)) : Prop where
  type : d.type = .scalar e
  extensible : d.extensible = true
  fill_eq : d.fill = e.toDatum fill
  dims : d.dims = rows.length :: tail
  written : ∀ i v, rows[i]? = some (some v) → v.type = e ∧ v.Fits tail ∧ d.row i = v.data
  reserved : ∀ i, rows[i]? = some none →
    d.row i = List.replicate (volume tail) (e.toDatum fill)

namespace ListsRows

variable {d d' : Dataset} {e : ElementType} {tail : List Nat} {fill : e.Value}
  {rows : List (Option RowValue)} (h : d.ListsRows e tail fill rows)

include h

theorem rows_eq : d.rows = rows.length := by simp [Dataset.rows, h.dims]

theorem appended {values : List Datum} (grown : Appended d values d') (row : Option RowValue)
    (new : match row with
      | some v => v.type = e ∧ v.Fits tail ∧ values = v.data
      | none => values = List.replicate (volume tail) (e.toDatum fill)) :
    d'.ListsRows e tail fill (rows ++ [row]) := by
  have last : d'.row rows.length = values := h.rows_eq ▸ grown.new
  have old {i : Nat} {r : Option RowValue} (at_ : (rows ++ [row])[i]? = some r) :
      rows[i]? = some r ∧ d'.row i = d.row i ∨ i = rows.length ∧ r = row := by
    rcases Nat.lt_or_ge i rows.length with low | high
    · rw [List.getElem?_append_left low] at at_
      exact .inl ⟨at_, grown.old i (h.rows_eq ▸ low)⟩
    · rw [List.getElem?_append_right high, List.getElem?_singleton] at at_
      split at at_
      · cases at_
        exact .inr ⟨by omega, rfl⟩
      · cases at_
  refine ⟨grown.alike.type.trans h.type, grown.alike.extensible.trans h.extensible,
    grown.alike.fill.trans h.fill_eq, ?_, fun i v at_ => ?_, fun i at_ => ?_⟩
  · rw [grown.dims, h.rows_eq, h.dims, List.tail_cons, List.length_append, List.length_singleton]
  · rcases old at_ with ⟨there, same⟩ | ⟨rfl, rfl⟩
    · rw [same]
      exact h.written i v there
    · exact ⟨new.1, new.2.1, last.trans new.2.2⟩
  · rcases old at_ with ⟨there, same⟩ | ⟨rfl, rfl⟩
    · rw [same]
      exact h.reserved i there
    · exact last.trans new

theorem wrote {v : RowValue} {index : Nat} (wrote : Wrote d index v.data d') (type : v.type = e)
    (fits : v.Fits tail) : d'.ListsRows e tail fill (rows.set index (some v)) := by
  have old {i : Nat} {r : Option RowValue} (at_ : (rows.set index (some v))[i]? = some r) :
      rows[i]? = some r ∧ d'.row i = d.row i ∨ i = index ∧ r = some v := by
    by_cases same : index = i
    · subst same
      rw [List.getElem?_set_self'] at at_
      obtain ⟨_, -, rfl⟩ := Option.map_eq_some_iff.1 at_
      exact .inr ⟨rfl, rfl⟩
    · rw [List.getElem?_set_ne same] at at_
      exact .inl ⟨at_, wrote.apart i (Ne.symm same)⟩
  refine ⟨wrote.alike.type.trans h.type, wrote.alike.extensible.trans h.extensible,
    wrote.alike.fill.trans h.fill_eq, ?_, fun i w at_ => ?_, fun i at_ => ?_⟩
  · rw [wrote.dims, h.dims, List.length_set]
  · rcases old at_ with ⟨there, same⟩ | ⟨rfl, same⟩
    · rw [same]
      exact h.written i w there
    · cases same
      exact ⟨type, fits, wrote.here⟩
  · rcases old at_ with ⟨there, same⟩ | ⟨-, same⟩
    · rw [same]
      exact h.reserved i there
    · cases same

/-- The same rows, whatever else is said of the dataset. -/
theorem same (alike : Alike d d') (cells : SameCells d d') : d'.ListsRows e tail fill rows := by
  have row (i : Nat) : d'.row i = d.row i :=
    row_eq_of_cell h.dims (cells.dims.trans h.dims) fun rest _ => cells.cells (i :: rest)
  refine ⟨alike.type.trans h.type, alike.extensible.trans h.extensible,
    alike.fill.trans h.fill_eq, cells.dims.trans h.dims, fun i v at_ => ?_, fun i at_ => ?_⟩
  · rw [row]
    exact h.written i v at_
  · rw [row]
    exact h.reserved i at_

end ListsRows

end Dataset

namespace Archive

variable {a a' : Archive} {path : Path} {id : DatasetId} {e : ElementType} {tail : List Nat}
  {fill : Option e.Value} {rows : List (Option RowValue)}

/-! ## Histories -/

/-- The rows that a growing dataset got since it was made, those that were reserved and not set
being without a value.  Rows may be asked for by any path that denotes the dataset, and anything
may be asked of the archive besides, with or without success, that does not aim at the dataset. -/
inductive RowHistory (e : ElementType) (tail : List Nat) (fill : Option e.Value)
    (id : DatasetId) : Archive → List (Option RowValue) → Prop
  | made {a₀ a : Archive} {path : Path} (asked : a₀.Asked)
      (done : createEmpty path e (0 :: tail) fill a₀ = .ok () a)
      (denotes : a.tree.denoted? path = some id) : RowHistory e tail fill id a []
  | appended {a a' : Archive} {rows : List (Option RowValue)} {path : Path} {v : RowValue}
      (h : RowHistory e tail fill id a rows) (denotes : a.tree.denoted? path = some id)
      (done : (v.appending path).run a = .ok () a') :
      RowHistory e tail fill id a' (rows ++ [some v])
  | reserved {a a' : Archive} {rows : List (Option RowValue)} {path : Path} {index : Nat}
      (h : RowHistory e tail fill id a rows) (denotes : a.tree.denoted? path = some id)
      (done : reserveRow path a = .ok index a') : RowHistory e tail fill id a' (rows ++ [none])
  | set {a a' : Archive} {rows : List (Option RowValue)} {path : Path} {v : RowValue}
      {index : Nat} (h : RowHistory e tail fill id a rows)
      (denotes : a.tree.denoted? path = some id)
      (done : (v.setting path index).run a = .ok () a') :
      RowHistory e tail fill id a' (rows.set index (some v))
  | besides {a : Archive} {rows : List (Option RowValue)} (h : RowHistory e tail fill id a rows)
      (c : Call) (apart : ∀ path, c.target? = some path → a.tree.denoted? path ≠ some id) :
      RowHistory e tail fill id (stateAfter (c.run a)) rows

namespace RowHistory

/-- What is true all along. -/
structure Holds (e : ElementType) (tail : List Nat) (fill : Option e.Value) (id : DatasetId)
    (a : Archive) (rows : List (Option RowValue)) : Prop where
  asked : a.Asked
  coherent : a.Coherent
  known : id < a.tree.datasets.length
  full : 0 ∉ tail
  lists : (a.dataset id).ListsRows e tail (fill.getD e.zero) rows

/-! ## Made -/

/-- A dataset whose rows have no cells is refused. -/
theorem ends_trailing {type : DataType} {dims : List Nat} {hint : Option Nat}
    {fill : Option Datum} : Ends (createEmptyOf path type dims hint fill) a
      (fun _ _ => 0 ∉ dims.tail) (fun _ _ => True) := by
  unfold createEmptyOf
  have checked : Ends (do
      if dims.tail.contains 0 then
        throw (.shapeMismatch path "create_empty_dataset" "non-zero trailing dimensions"
          (showExtents dims))
      createDataset path type dims (dims.head? = some 0) hint fill) a
        (fun _ _ => 0 ∉ dims.tail) (fun _ _ => True) := by
    refine ends_ite.2 ⟨fun _ => ends_bind.2 (ends_throw.2 trivial), fun without => ?_⟩
    exact ends_of_forall (fun _ _ _ => by simpa using without) fun _ _ _ => trivial
  exact ends_ite.2 ⟨fun _ => ends_bind.2 (ends_throw.2 trivial), fun _ => checked⟩

theorem holds_of_made {a₀ : Archive} (asked : a₀.Asked)
    (done : createEmpty path e (0 :: tail) fill a₀ = .ok () a)
    (denotes : a.tree.denoted? path = some id) : Holds e tail fill id a [] := by
  have asked' := asked.called
    (.createEmptyOf path (.scalar e) (0 :: tail) none (fill.map e.toDatum))
  have after : stateAfter (createEmpty path e (0 :: tail) fill a₀) = a := by rw [done]; rfl
  have transparent := asked.transparent
  have coherent : a₀.Coherent := by
    refine ⟨?_, transparent.handles⟩
    rcases transparent.container.ready_or_closed with ready | closed
    · exact ready
    · have refused : Ends (createEmpty path e (0 :: tail) fill) a₀ (fun _ _ => False)
          (fun _ _ => True) :=
        ends_createEmptyOf (fun _ => trivial) (ends_createDataset_closed closed)
      exact (refused.good_of_eq done).elim
  have made : Ends (createEmpty path e (0 :: tail) fill) a₀ _ _ :=
    ends_createEmptyOf (fun _ => trivial) (ends_createDataset_made coherent)
  obtain ⟨coherent', chunkRows, made⟩ := made.good_of_eq done
  obtain ⟨id', node, there⟩ := Tree.at?_eq_some.1 ((made.at_ path).trans (if_pos rfl))
  obtain rfl : id' = id := Option.some.inj ((Tree.denoted?_of_node node).symm.trans denotes)
  have full : 0 ∉ tail := (ends_trailing).good_of_eq done
  refine ⟨after ▸ asked', coherent', Tree.lt_of_getElem? there, full, ?_⟩
  have dataset : a.dataset id' = _ := Tree.dataset_of_getElem? there
  rw [dataset]
  refine ⟨rfl, rfl, ?_, rfl, fun _ _ at_ => by simp at at_, fun _ at_ => by simp at at_⟩
  cases fill with
  | none => exact e.toDatum_zero.symm
  | some v => rfl

/-! ## Kept

What each kind of call does to the list.  Everything that is asked of other paths leaves it alone.
-/

namespace Holds

variable (h : Holds e tail fill id a rows)

include h

theorem after {rows' : List (Option RowValue)} {d' : Dataset} {c : Call}
    (denotes : a.tree.denoted? path = some id) (done : stateAfter (c.run a) = a')
    (altered : Altered a path id d' a') (lists : d'.ListsRows e tail (fill.getD e.zero) rows') :
    Holds e tail fill id a' rows' where
  asked := done ▸ h.asked.called c
  coherent := altered.coherent h.coherent denotes
  known := altered.there h.known
  full := h.full
  lists := altered.here ▸ lists

theorem appended {v : RowValue} (denotes : a.tree.denoted? path = some id)
    (done : (v.appending path).run a = .ok () a') : Holds e tail fill id a' (rows ++ [some v]) := by
  obtain ⟨type, fits, d', grown, altered⟩ := (RowValue.ends_appending h.coherent denotes
    h.lists.type h.lists.dims h.lists.extensible v).good_of_eq done
  refine h.after (c := .typed (v.appending path)) denotes ?_ altered
    (h.lists.appended grown (some v) ⟨type, fits, rfl⟩)
  exact congrArg stateAfter done

theorem reserved {index : Nat} (denotes : a.tree.denoted? path = some id)
    (done : reserveRow path a = .ok index a') : Holds e tail fill id a' (rows ++ [none]) := by
  obtain ⟨d', grown, altered⟩ := ((ends_reserveRow_denoted h.coherent denotes
    (Tree.getElem?_of_lt h.known) h.lists.extensible).good_of_eq done).altered
  refine h.after (c := .reserveRow path) denotes ?_ altered (h.lists.appended grown none ?_)
  · show stateAfter (EStateM.map _ (reserveRow path) a) = a'
    rw [EStateM.map, done]
    rfl
  · have tail_eq : (a.tree.dataset id).dims.tail = tail := congrArg List.tail h.lists.dims
    have fill_eq : (a.tree.dataset id).fill = _ := h.lists.fill_eq
    rw [tail_eq, fill_eq]

theorem set {v : RowValue} {index : Nat} (denotes : a.tree.denoted? path = some id)
    (done : (v.setting path index).run a = .ok () a') :
    Holds e tail fill id a' (rows.set index (some v)) := by
  obtain ⟨-, type, fits, d', wrote, altered⟩ := (RowValue.ends_setting h.coherent denotes
    h.lists.type h.lists.dims h.full index v).good_of_eq done
  refine h.after (c := .typed (v.setting path index)) denotes ?_ altered
    (h.lists.wrote wrote type fits)
  exact congrArg stateAfter done

/-- What does not aim at the dataset leaves its rows; and it goes on to be the dataset that it
was. -/
theorem besides (c : Call)
    (apart : ∀ path, c.target? = some path → a.tree.denoted? path ≠ some id) :
    Holds e tail fill id (stateAfter (c.run a)) rows := by
  have leaves := (c.leaves h.coherent h.known apart).state
  have lasts := robust_of_tree
    (P := fun t => id < t.datasets.length ∧ Dataset.Alike (a.dataset id) (t.dataset id))
    fun t t' there _ retains => ⟨(retains id there.1).1, there.2.trans (retains id there.1).2⟩
  obtain ⟨-, known, alike⟩ := (c.preserves_run lasts).after
    ⟨h.asked.transparent, h.known, .refl _⟩
  exact ⟨h.asked.called c, leaves.coherent, known, h.full, h.lists.same alike leaves.same⟩

end Holds

theorem holds (h : RowHistory e tail fill id a rows) : Holds e tail fill id a rows := by
  induction h with
  | made asked done denotes => exact holds_of_made asked done denotes
  | appended _ denotes done ih => exact ih.appended denotes done
  | reserved _ denotes done ih => exact ih.reserved denotes done
  | set _ denotes done ih => exact ih.set denotes done
  | besides _ c apart ih => exact ih.besides c apart

/-- One of one column that is stored as it is. -/
def standing : RowValue := .matrix .int32 ⟨2, 1, #[(3 : Int32), (4 : Int32)], rfl⟩ false

end RowHistory

end Archive
end StudyArchive
