import StudyArchive.Proofs.Archive.Calls
import StudyArchive.Proofs.Archive.Filling
import StudyArchive.Proofs.Dataset.Words
/-
# Rows and columns over one another

The rows and the columns of a table have cells in common, so it matters in which order they are
written.  A line that fits replaces the one that is there, and any other is refused and changes
nothing; so after any calls the table holds the matrix that the calls make of the one that it held
before (`Archive.writes_lines`).  A row is checked for its length and then, as a selection, for its
index, a column for its index and then for its length; yet what fits is the same for both, with rows
and columns exchanged (`LineWrite.Fits`).

A table has as many cells as words can count, and so have its chunks; then every line that fits is
written, and the table read, as it is said here by any program that reckons with words.  Of a row at
the last word nothing is said: where it ends is no word, and it depends on the program whether it is
refused, written somewhere else or neither (`Archive.accepts_row_at_last_word`).
-/

namespace StudyArchive

open Selection

/-! ## Matrices -/

namespace Matrix

variable {α : Type} {m : Matrix α} {row : Bool} {i r c : Nat} {values : List α}

/-- The matrix with a row, or a column, replaced. -/
def setLine (m : Matrix α) (row : Bool) (i : Nat) (values : List α) : Matrix α :=
  ofFn m.rows m.cols fun r c =>
    if row then
      if r.val = i then values.getD c (m.cell r c) else m.cell r c
    else if c.val = i then values.getD r (m.cell r c) else m.cell r c

/-- On the line there are the values. -/
theorem get?_setLine_self (low : r < m.rows) (col : c < m.cols) (on : (if row then r else c) = i)
    {v : α} (value : values[if row then c else r]? = some v) :
    (m.setLine row i values).get? r c = some v := by
  rw [setLine, get?_ofFn low col]
  cases row <;> simp_all

/-- Off the line nothing changes. -/
theorem get?_setLine_of_ne (off : (if row then r else c) ≠ i) :
    (m.setLine row i values).get? r c = m.get? r c := by
  by_cases inside : r < m.rows ∧ c < m.cols
  · obtain ⟨low, col⟩ := inside
    have old : m.get? r c = some (m.cell ⟨r, low⟩ ⟨c, col⟩) := dif_pos ⟨low, col⟩
    rw [setLine, get?_ofFn low col, old]
    cases row <;> simp_all
  · rw [get?_eq_none inside]
    exact get?_eq_none (m := m.setLine row i values) inside

end Matrix

/-! ## Calls -/

/-- A row or a column for a table. -/
structure LineWrite (e : ElementType) where
  path : Path
  values : List e.Value
  index : Nat
  row : Bool

namespace LineWrite

variable {e : ElementType} {height width : Nat}

def run (w : LineWrite e) : Archive.Action Unit :=
  Archive.setVector w.path e w.values w.index w.row

/-- Whether a table has the line, and just as many places in it. -/
def Fits (w : LineWrite e) (height width : Nat) : Prop :=
  if w.row then w.index < height ∧ w.values.length = width
  else w.index < width ∧ w.values.length = height

instance (w : LineWrite e) (height width : Nat) : Decidable (w.Fits height width) :=
  inferInstanceAs (Decidable (if w.row then _ else _))

theorem Fits.length {w : LineWrite e} (fits : w.Fits height width) :
    w.values.length = if w.row then width else height := by
  unfold Fits at fits
  split <;> simp_all

/-- The matrix that a call makes of a matrix. -/
def apply (w : LineWrite e) (m : Matrix e.Value) : Matrix e.Value :=
  if w.Fits m.rows m.cols then m.setLine w.row w.index w.values else m

/-- The matrix that calls make of a matrix, one after the other. -/
def applyAll (calls : List (LineWrite e)) (m : Matrix e.Value) : Matrix e.Value :=
  calls.foldl (fun m w => w.apply m) m

@[simp] theorem rows_apply (w : LineWrite e) (m : Matrix e.Value) : (w.apply m).rows = m.rows := by
  unfold apply
  split <;> rfl

@[simp] theorem cols_apply (w : LineWrite e) (m : Matrix e.Value) : (w.apply m).cols = m.cols := by
  unfold apply
  split <;> rfl

theorem extents_applyAll (calls : List (LineWrite e)) (m : Matrix e.Value) :
    (applyAll calls m).rows = m.rows ∧ (applyAll calls m).cols = m.cols := by
  induction calls generalizing m with
  | nil => exact ⟨rfl, rfl⟩
  | cons w calls ih => simpa [applyAll] using ih (w.apply m)

end LineWrite

/-! ## Cells

A line of the matrix is a selection of the table, with as many cells as the line has values. -/

namespace Dataset

variable {d d' : Dataset} {e : ElementType} {m : Matrix e.Value} {w : LineWrite e}

theorem holds_of_cells (type : d.type = .scalar e) (dims : d.dims = [m.rows, m.cols])
    (cells : ∀ r c v, m.get? r c = some v → d.cell [r, c] = e.toDatum v) :
    d.Holds e [m.rows, m.cols] (m.toRowMajor.map e.toDatum) := by
  refine ⟨type, dims, ?_⟩
  have row (r : Nat) : (indices [m.cols]).map (r :: ·) = (List.range m.cols).map ([r, ·]) := by
    rw [indices_cons, List.map_flatMap, List.map_eq_flatMap]
    rfl
  have block : d.block [] = ((List.range m.rows).map fun r =>
      (List.range m.cols).map fun c => d.cell [r, c]).flatten := by
    rw [Dataset.block, List.length_nil, List.drop_zero, dims, indices_cons, List.map_flatMap,
      List.flatMap_def]
    simp only [row, List.map_map, Function.comp_def, List.nil_append]
  rw [block, Matrix.toRowMajor, List.map_flatten, Matrix.rowList, List.map_ofFn]
  refine congrArg List.flatten (List.ext_getElem (by simp) fun r low _ => ?_)
  refine List.ext_getElem (by simp [Matrix.row]) fun c inner _ => ?_
  have row : r < m.rows := by simpa using low
  have col : c < m.cols := by simpa using inner
  simpa [Matrix.row] using cells r c _ (dif_pos ⟨row, col⟩)

/-- Whether a write of values is encoded. -/
def frames (d : Dataset) (c : Container) (s : Selection) (values : List Datum) : Bool :=
  (c.payload d "" values).toOption.any fun bytes =>
    (Record.write d.path s.start s.count bytes).encode.toOption.isSome

theorem hasFrame_of_frames {c : Container} {s : Selection} {values : List Datum}
    (h : d.frames c s values) : d.HasFrame s values := by
  obtain ⟨bytes, encoded, framed⟩ := (Option.any_eq_true ..).1 h
  obtain ⟨frame, framed⟩ := Option.isSome_iff_exists.1 framed
  exact ⟨c, "", bytes, eq_ok_of_toOption encoded, frame, eq_ok_of_toOption framed⟩

theorem getElem?_partSelection {height width : Nat} (dims : d.dims = [height, width]) {row : Bool}
    {i k : Nat} (inside : k < if row then width else height) :
    (d.partSelection row i).cells[k]? = some (if row then [i, k] else [k, i]) := by
  rw [partSelection_eq dims]
  cases row with
  | true =>
    have inside : k < width := inside
    simp [cells_across, inside]
  | false =>
    have inside : k < height := inside
    simp [cells_down, inside]

theorem mem_partSelection {height width r c : Nat} (dims : d.dims = [height, width]) {row : Bool}
    {i : Nat} (mem : [r, c] ∈ (d.partSelection row i).cells) : (if row then r else c) = i := by
  rw [partSelection_eq dims] at mem
  cases row with
  | true =>
    obtain ⟨k, -, eq⟩ : ∃ k, k < width ∧ [i, k] = [r, c] := by simpa [cells_across] using mem
    cases eq
    rfl
  | false =>
    obtain ⟨k, -, eq⟩ : ∃ k, k < height ∧ [k, i] = [r, c] := by simpa [cells_down] using mem
    cases eq
    rfl

theorem fits_partSelection {height width : Nat} (dims : d.dims = [height, width])
    (fits : w.Fits height width) : (d.partSelection w.row w.index).Fits [height, width] := by
  unfold LineWrite.Fits at fits
  rw [partSelection_eq dims]
  cases row : w.row with
  | true =>
    have low : w.index < height := by simp_all
    exact ⟨rfl, rfl, .cons low (.cons (by simp) .nil)⟩
  | false =>
    have low : w.index < width := by simp_all
    exact ⟨rfl, rfl, .cons (by simp) (.cons low .nil)⟩

/-- The selection of a line that fits does not leave the words. -/
theorem addressed_partSelection {height width : Nat} (dims : d.dims = [height, width])
    (tall : IsWord height) (wide : IsWord width) (fits : w.Fits height width) :
    (d.partSelection w.row w.index).Addressed := by
  unfold LineWrite.Fits at fits
  rw [partSelection_eq dims]
  cases row : w.row with
  | true =>
    have low : w.index < height := by simp_all
    refine ⟨by simpa using ⟨tall.mono low, wide⟩, ?_⟩
    simpa [IsCounted, volume] using ⟨isWord_one, wide⟩
  | false =>
    have low : w.index < width := by simp_all
    refine ⟨by simpa using ⟨tall, wide.mono low⟩, ?_⟩
    simpa [IsCounted, volume] using ⟨isWord_one, tall⟩

theorem size_partSelection {height width : Nat} (dims : d.dims = [height, width])
    (fits : w.Fits height width) : (d.partSelection w.row w.index).size = w.values.length := by
  rw [partSelection_eq dims, fits.length]
  cases w.row <;> simp [Selection.size, volume]

/-- A line that is written over a table that holds a matrix, replaces it in the matrix. -/
theorem Holds.setLine (h : d.Holds e [m.rows, m.cols] (m.toRowMajor.map e.toDatum))
    (chunked : d.Chunked) (fits : w.Fits m.rows m.cols) {operation : String}
    (written : d.write operation (d.partSelection w.row w.index) (w.values.map e.toDatum) =
      .ok d') :
    d'.Holds e [m.rows, m.cols]
      ((m.setLine w.row w.index w.values).toRowMajor.map e.toDatum) := by
  obtain ⟨alike, dims⟩ := alike_of_write written
  refine holds_of_cells (m := m.setLine w.row w.index w.values) (alike.type.trans h.type)
    (dims.trans h.dims) fun r c v at_ => ?_
  obtain ⟨low, col⟩ : r < m.rows ∧ c < m.cols :=
    Matrix.lt_of_get? (m := m.setLine w.row w.index w.values) at_
  by_cases on : (if w.row then r else c) = w.index
  · have inside : (if w.row then c else r) < if w.row then m.cols else m.rows := by
      split <;> assumption
    have value := List.getElem?_eq_getElem (fits.length ▸ inside)
    obtain rfl := Option.some.inj ((Matrix.get?_setLine_self low col on value).symm.trans at_)
    have cell := cell_of_write chunked written (getElem?_partSelection h.dims inside)
      (v := e.toDatum _) (by rw [List.getElem?_map, value, Option.map_some])
    rw [← cell, ← on]
    split <;> rfl
  · have here : d.Spans [r, c] :=
      spans_of_inside (h.dims ▸ .cons low (.cons col .nil))
    have apart : [r, c] ∉ (d.partSelection w.row w.index).cells := fun mem =>
      on (mem_partSelection h.dims mem)
    rw [Matrix.get?_setLine_of_ne on] at at_
    rw [cell_of_write_of_not_mem chunked written here apart]
    exact h.cell_matrix at_

end Dataset

/-! ## One call after the other

`Overlaid` is the invariant: the table holds the matrix that the calls have made so far.  A call
that fits writes its line, and any other leaves the archive as it was. -/

namespace Archive

open Dataset

variable {a b : Archive} {path : Path} {id : DatasetId} {e : ElementType} {height width : Nat}
  {m : Matrix e.Value} {w : LineWrite e} {calls : List (LineWrite e)}

/-- The archive after calls, with or without success. -/
def afterLines (a : Archive) (calls : List (LineWrite e)) : Archive :=
  calls.foldl (fun a w => stateAfter (w.run a)) a

/-- An archive as calls to a table leave it, with a matrix in the table. -/
structure Overlaid (a : Archive) (id : DatasetId) (m : Matrix e.Value) (b : Archive) : Prop where
  coherent : b.Coherent
  nodes : b.tree.nodes = a.tree.nodes
  known : id < b.tree.datasets.length
  alike : (a.dataset id).Alike (b.dataset id)
  dims : (b.dataset id).dims = (a.dataset id).dims
  sized : (b.dataset id).Sized
  counted : IsCounted (b.dataset id).dims
  holds : (b.dataset id).Holds e [m.rows, m.cols] (m.toRowMajor.map e.toDatum)

/-- A call for a table: its path denotes the table, a row ends at a word, and if the line fits, its
record has a frame. -/
structure Meant (a : Archive) (id : DatasetId) (height width : Nat) (w : LineWrite e) : Prop where
  denotes : a.tree.denoted? w.path = some id
  word : w.row = true → IsWord (w.index + 1)
  framed : w.Fits height width →
    (a.dataset id).HasFrame ((a.dataset id).partSelection w.row w.index) (w.values.map e.toDatum)

namespace Overlaid

section
variable (h : Overlaid a id m b)

include h

theorem denoted? (denotes : a.tree.denoted? path = some id) : b.tree.denoted? path = some id := by
  rw [Tree.denoted?_congr h.nodes, denotes]

theorem chunked : (b.dataset id).Chunked :=
  (h.coherent.ready.sound.each (Tree.getElem?_of_lt h.known)).toChunked

theorem words : IsWord m.rows ∧ IsWord m.cols := by
  have row := h.sized.row.isWord
  have table := h.counted
  rw [h.holds.dims] at row table
  refine ⟨?_, by simpa [volume] using row⟩
  simpa [volume] using table [m.rows] (by simp)

/-- The table is read on words. -/
theorem readIn_full (arithmetic : Arithmetic) (operation : String) :
    (b.dataset id).readIn arithmetic operation ⟨[0, 0], [m.rows, m.cols]⟩ =
      some (.ok (m.toRowMajor.map e.toDatum)) := by
  have dims := h.holds.dims
  have addressed : (Selection.mk [0, 0] [m.rows, m.cols]).Addressed := by
    refine ⟨by simpa using h.words, ?_⟩
    have counted := h.counted
    rwa [dims] at counted
  have block : (b.dataset id).read operation ⟨[0, 0], [m.rows, m.cols]⟩ =
      .ok ((b.dataset id).block []) := read_block .nil dims
  rw [readIn_eq arithmetic h.chunked h.sized addressed, block, h.holds.whole]

/-- A line that fits replaces the one that is there, and is written so on words. -/
theorem exists_run (meant : Meant a id m.rows m.cols w) (fits : w.Fits m.rows m.cols) :
    ∃ b', w.run b = .ok () b' ∧ Overlaid a id (m.setLine w.row w.index w.values) b' ∧
      ∀ arithmetic, (b.dataset id).writeIn arithmetic "set_vector"
        ((b.dataset id).partSelection w.row w.index) (w.values.map e.toDatum) =
          some (.ok (b'.dataset id)) := by
  have denotes := h.denoted? meant.denotes
  have chunked := h.chunked
  have addressed := addressed_partSelection h.holds.dims h.words.1 h.words.2 fits
  obtain ⟨coherent, nodes, known, alike, dims, sized, counted, holds⟩ := h
  have here : b.Holds id e [m.rows, m.cols] := ⟨coherent.ready, known, holds.type, holds.dims⟩
  have goes : if w.row then w.values.length = m.cols
      else w.index < m.cols ∧ w.values.length = m.rows := by
    unfold LineWrite.Fits at fits
    split <;> simp_all
  have framed : (b.dataset id).HasFrame ((b.dataset id).partSelection w.row w.index)
      (w.values.map e.toDatum) := by
    have framed := (meant.framed fits).congr alike.path alike.type
    rwa [partSelection_eq (dims.symm.trans holds.dims), ← partSelection_eq holds.dims] at framed
  have puts := (ends_put_written coherent.ready known w.path).and
    (ends_put_of_framed here "set_vector" (fits_partSelection holds.dims fits)
      (size_partSelection holds.dims fits) framed)
  obtain ⟨⟨⟩, b', ran, ⟨d', written, altered⟩, -⟩ :=
    (puts.mono (fun _ _ both => both) fun _ _ both => both.2).exists_ok
  obtain ⟨alike', dims'⟩ := alike_of_write written
  refine ⟨b', (setVector_eq_put coherent denotes holds.type holds.dims goes).trans ran,
    ⟨altered.coherent coherent denotes, altered.nodes.trans nodes, altered.length ▸ known, ?_, ?_,
      ?_, ?_, ?_⟩, fun arithmetic => ?_⟩
  · exact altered.here ▸ alike.trans alike'
  · exact altered.here ▸ dims'.trans dims
  · exact altered.here ▸ sized.write written
  · exact altered.here ▸ dims' ▸ counted
  · exact altered.here ▸ holds.setLine chunked fits written
  · rw [writeIn_eq arithmetic chunked sized addressed, written, altered.here]

/-- Any other line is refused, with an answer, and nothing changes. -/
theorem ends_run_of_misfit (meant : Meant a id m.rows m.cols w) (misfit : ¬w.Fits m.rows m.cols) :
    Ends w.run b (fun _ _ => False) (fun err b' => b' = b ∧ err.isOverflow = false) := by
  have denotes := h.denoted? meant.denotes
  obtain ⟨coherent, -, -, -, -, -, -, ⟨type, dims, -⟩⟩ := h
  have rank : (b.dataset id).rank = 2 := by rw [Dataset.rank, dims]; rfl
  refine ends_bind_of_ok (find_eq_ok coherent denotes rank type "set_vector")
    (ends_bind.2 (ends_get.2 (ends_ite.2 ⟨fun across => ?_, fun down => ?_⟩)))
  · have misfit : ¬(w.index < m.rows ∧ w.values.length = m.cols) := by
      simpa [LineWrite.Fits, across] using misfit
    have even_or (err : StorageError)
        (uneven : checkTrailing (b.dataset id) "set_vector" [w.values.length] = .error err) :
        b = b ∧ err.isOverflow = false := by
      unfold checkTrailing at uneven
      split at uneven <;> cases uneven
      exact ⟨rfl, rfl⟩
    refine ends_bind.2 (ends_liftExcept.2 ⟨fun _ even => ?_, even_or⟩)
    have length : w.values.length = m.cols := by
      simpa [checkTrailing, dims, eq_comm] using even
    have beyond : m.rows ≤ w.index := Nat.le_of_not_lt fun low => misfit ⟨low, length⟩
    have refused : putVector id "set_vector" [w.index] w.values b =
        .error (.invalidIndex (b.dataset id).path "set_vector" w.index m.rows) b :=
      put_eq_error (checkSelection_beyond dims (by rfl) (by rfl) beyond (meant.word across)
        "set_vector") _
    refine ends_of_forall (fun _ _ ran => ?_) fun _ _ ran => ?_
    · cases refused.symm.trans ran
    · cases refused.symm.trans ran
      exact ⟨rfl, rfl⟩
  · have misfit : ¬(w.index < m.cols ∧ w.values.length = m.rows) := by
      simpa [LineWrite.Fits, down] using misfit
    have height : (b.dataset id).dims[0]?.getD 0 = m.rows := by rw [dims]; rfl
    have width : (b.dataset id).dims[1]?.getD 0 = m.cols := by rw [dims]; rfl
    simp only [height, width]
    refine ends_ite.2 ⟨fun low => ?_, fun _ => ends_bind.2 (ends_throw.2 ⟨rfl, rfl⟩)⟩
    refine ends_ite.2 ⟨fun length => ?_, fun _ => ends_bind.2 (ends_throw.2 ⟨rfl, rfl⟩)⟩
    exact absurd ⟨low, length⟩ misfit

/-- After one call the table holds what the call makes of the matrix. -/
theorem stateAfter_run (meant : Meant a id m.rows m.cols w) :
    Overlaid a id (w.apply m) (stateAfter (w.run b)) := by
  unfold LineWrite.apply
  split
  · next fits =>
    obtain ⟨b', ran, overlaid, -⟩ := h.exists_run meant fits
    rw [ran]
    exact overlaid
  · next misfit =>
    refine ((h.ends_run_of_misfit meant misfit).mono (fun _ _ => False.elim) ?_).state
    rintro _ b' ⟨rfl, -⟩
    exact h

end

/-- So it does after any calls, one after the other. -/
theorem afterLines (h : Overlaid a id m b) (meant : ∀ w ∈ calls, Meant a id m.rows m.cols w) :
    Overlaid a id (LineWrite.applyAll calls m) (b.afterLines calls) := by
  induction calls generalizing m b with
  | nil => exact h
  | cons w calls ih =>
    obtain ⟨first, others⟩ := List.forall_mem_cons.1 meant
    refine ih (h.stateAfter_run first) ?_
    rwa [w.rows_apply, w.cols_apply]

end Overlaid

theorem exists_overlaid (standing : a.Standing) (isOpen : a.mounted.container.isClosed = false)
    (denotes : a.tree.denoted? path = some id) (type : (a.dataset id).type = .scalar e)
    (dims : (a.dataset id).dims = [height, width]) (sized : (a.dataset id).Sized)
    (counted : IsCounted (a.dataset id).dims) :
    ∃ m : Matrix e.Value, m.rows = height ∧ m.cols = width ∧ Overlaid a id m a := by
  have known := standing.container.rooted.toSound.lt_of_denoted? denotes
  have coherent : a.Coherent := by
    refine ⟨standing.container.ready_or_closed.resolve_right fun closed => ?_, standing.handles⟩
    simp [Container.isClosed, closed] at isOpen
  have typed : (a.dataset id).Typed := Tree.Typed.dataset standing.container.typed known
  have fit : ∀ v ∈ (a.dataset id).block [], v.isElement e := by
    intro v mem
    obtain ⟨index, -, rfl⟩ := List.mem_map.1 mem
    have conforms := typed.cell index
    rw [type] at conforms
    exact conforms
  obtain ⟨values, -, same⟩ := exists_elements fit (a.dataset id) ""
  have size : values.length = height * width := by
    rw [← List.length_map (f := e.toDatum), same, length_block, dims]
    simp [volume]
  obtain ⟨m, made, rows⟩ := Matrix.exists_ofRowMajor size
  obtain ⟨rfl, rfl⟩ := Matrix.extents_of_ofRowMajor? made
  exact ⟨m, rfl, rfl, coherent, rfl, known, .refl _, rfl, sized, counted, type, dims,
    by rw [rows, same]⟩

/-- Rows and columns that are written over a table, one after the other, do to it what they do to
the matrix in it: those that fit replace a row or a column, and the others are refused, with an
answer, and change nothing.  The table is written and read so with words of either kind. -/
theorem writes_lines (standing : a.Standing) (isOpen : a.mounted.container.isClosed = false)
    (denotes : a.tree.denoted? path = some id) (type : (a.dataset id).type = .scalar e)
    (dims : (a.dataset id).dims = [height, width]) (sized : (a.dataset id).Sized)
    (counted : IsCounted (a.dataset id).dims)
    (meant : ∀ w ∈ calls, Meant a id height width w) :
    ∃ m : Matrix e.Value, m.rows = height ∧ m.cols = width ∧
      a.readMatrix path e false = .ok m ∧
      (a.afterLines calls).readMatrix path e false = .ok (LineWrite.applyAll calls m) ∧
      (∀ arithmetic, ((a.afterLines calls).dataset id).readIn arithmetic "read_matrix"
        ⟨[0, 0], [height, width]⟩ =
          some (.ok ((LineWrite.applyAll calls m).toRowMajor.map e.toDatum))) ∧
      ∀ front w back, calls = front ++ w :: back →
        (w.Fits height width → ∃ b, w.run (a.afterLines front) = .ok () b ∧
          ∀ arithmetic, ((a.afterLines front).dataset id).writeIn arithmetic "set_vector"
            (((a.afterLines front).dataset id).partSelection w.row w.index)
            (w.values.map e.toDatum) = some (.ok (b.dataset id))) ∧
        (¬w.Fits height width → ∃ err,
          w.run (a.afterLines front) = .error err (a.afterLines front) ∧
          err.isOverflow = false) := by
  obtain ⟨m, rfl, rfl, before⟩ := exists_overlaid standing isOpen denotes type dims sized counted
  have read {m : Matrix e.Value} {b : Archive} (h : Overlaid a id m b) :
      b.readMatrix path e false = .ok m := readMatrix_eq_ok h.coherent (h.denoted? denotes) h.holds
  have after := before.afterLines meant
  refine ⟨m, rfl, rfl, read before, read after, fun arithmetic => ?_, fun front w back eq => ?_⟩
  · obtain ⟨rows, cols⟩ := LineWrite.extents_applyAll calls m
    rw [← after.readIn_full arithmetic "read_matrix", rows, cols]
  subst eq
  obtain ⟨earlier, here, -⟩ := List.forall_mem_append.1 meant |>.imp_right List.forall_mem_cons.1
  have there := before.afterLines earlier
  obtain ⟨rows, cols⟩ := LineWrite.extents_applyAll front m
  rw [← rows, ← cols] at here ⊢
  refine ⟨fun fits => ?_, fun misfit => ?_⟩
  · obtain ⟨b, ran, -, words⟩ := there.exists_run here fits
    exact ⟨b, ran, words⟩
  · have refused := there.ends_run_of_misfit here misfit
    cases ran : w.run (a.afterLines front) with
    | ok v b => exact (refused.good_of_eq ran).elim
    | error err b =>
      obtain ⟨rfl, answer⟩ := refused.bad_of_eq ran
      exact ⟨err, rfl, answer⟩

/-- A row, a column that has a cell with it in common, and a row that is beyond the extent. -/
def crossing : List (LineWrite .real) :=
  [⟨.ofText "/t", [.nan, .nan, .nan], 1, true⟩, ⟨.ofText "/t", [⟨1⟩, ⟨2⟩], 0, false⟩,
    ⟨.ofText "/t", [.nan, .nan, .nan], 2, true⟩]

theorem writes_lines_of_crossing : ∃ a, MatrixValue.withTable [2, 3] = some a ∧ a.Standing ∧
    a.mounted.container.isClosed = false ∧ a.tree.denoted? (.ofText "/t") = some 0 ∧
    (a.dataset 0).type = .scalar .real ∧ (a.dataset 0).dims = [2, 3] ∧
    (a.dataset 0).Sized ∧ IsCounted (a.dataset 0).dims ∧ (∀ w ∈ crossing, Meant a 0 2 3 w) ∧
    a.readMatrix (.ofText "/t") .real false = .ok (.filled 2 3 .zero) ∧
    (a.afterLines crossing).readMatrix (.ofText "/t") .real false =
      .ok ⟨2, 3, #[⟨1⟩, ⟨2⟩, .zero, .nan, .zero, .nan], rfl⟩ := by
  have ready : (MatrixValue.withTable [2, 3]).any fun a =>
      a.mounted.container.isClosed = false ∧ a.tree.denoted? (.ofText "/t") = some 0 ∧
      (a.dataset 0).type = .scalar .real ∧ (a.dataset 0).dims = [2, 3] ∧
      (a.dataset 0).Sized ∧ IsCounted (a.dataset 0).dims ∧
      (∀ w ∈ crossing, w.path = .ofText "/t" ∧ IsWord (w.index + 1) ∧
        (a.dataset 0).frames a.mounted.container ((a.dataset 0).partSelection w.row w.index)
          (w.values.map ElementType.real.toDatum)) ∧
      (a.readMatrix (.ofText "/t") .real false).toOption = some (.filled 2 3 .zero) := by
    decide +kernel
  obtain ⟨a, made, ready⟩ := (Option.any_eq_true ..).1 ready
  obtain ⟨isOpen, denotes, type, dims, sized, counted, frames, read⟩ := of_decide_eq_true ready
  have standing : a.Standing := by
    obtain ⟨a₀, opened, rfl⟩ := Option.map_eq_some_iff.1 made
    exact (standing_of_openFile (eq_ok_of_toOption opened)).changed _
  have meant : ∀ w ∈ crossing, Meant a 0 2 3 w := fun w mem =>
    ⟨(frames w mem).1 ▸ denotes, fun _ => (frames w mem).2.1,
      fun _ => hasFrame_of_frames (frames w mem).2.2⟩
  obtain ⟨m, -, -, before, after, -⟩ :=
    writes_lines standing isOpen denotes type dims sized counted meant
  have read := eq_ok_of_toOption read
  obtain rfl : .filled 2 3 .zero = m := Except.ok.inj (read.symm.trans before)
  have same : LineWrite.applyAll crossing (.filled 2 3 .zero) =
      ⟨2, 3, #[⟨1⟩, ⟨2⟩, .zero, .nan, .zero, .nan], rfl⟩ := by decide +kernel
  exact ⟨a, made, standing, isOpen, denotes, type, dims, sized, counted, meant, read, same ▸ after⟩

/-- The row of a table at the last word.  It does not fit, but where sums wrap it ends at 0, and the
table takes it; where they do not, nothing comes of the call. -/
theorem accepts_row_at_last_word :
    let d := Dataset.new (.ofText "/t") (.scalar .real) [2, 3] false 2 (.real .zero)
    let w : LineWrite .real := ⟨.ofText "/t", [.nan, .nan, .nan], Bytes.span 8 - 1, true⟩
    let written := fun arithmetic => d.writeIn arithmetic "set_vector"
      (d.partSelection w.row w.index) (w.values.map ElementType.real.toDatum)
    ¬w.Fits 2 3 ∧ (∃ d', written .wrapping = some (.ok d')) ∧ written .checked = none := by
  intro d w written
  refine ⟨by decide +kernel, ?_, by decide +kernel⟩
  have taken : (written .wrapping).any fun answer => answer.toOption.isSome := by decide +kernel
  obtain ⟨answer, same, ok⟩ := (Option.any_eq_true ..).1 taken
  obtain ⟨d', ok⟩ := Option.isSome_iff_exists.1 ok
  exact ⟨d', same.trans (congrArg some (eq_ok_of_toOption ok))⟩

end Archive
end StudyArchive
