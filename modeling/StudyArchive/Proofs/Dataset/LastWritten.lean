import StudyArchive.Proofs.Dataset.Words
/-
# The value that was written last

Whatever was done to a dataset, a read gives for each cell of its selection the value of the last
write that was let through and had the cell in its own selection, and the fill where there is none
(`Dataset.read_edited`).  The chunks do not show: not in the values, not in which calls are refused,
and no cell that a call comes to lies outside its chunk.

The history of a dataset is the list of calls on it.  What the calls leave of a cell is followed
call by call (`Dataset.cell_after`), and the list of the writes that were let through is all that
the values depend on (`Dataset.cell_edited`).  All this is about numbers; it holds of a program that
has words for them, however it was built, as long as what the calls ask for does not leave the
words.  Beyond that it does not hold: a selection that starts at the last word is neither let
through nor refused (`Dataset.leaves_chunk`).
-/

namespace StudyArchive

namespace Selection

instance decidableHas : (start count index : List Nat) → Decidable (Has start count index)
  | s :: start, c :: count, i :: index =>
    have := decidableHas start count index
    inferInstanceAs (Decidable (s ≤ i ∧ i < s + c ∧ Has start count index))
  | [], [], [] => .isTrue trivial
  | [], [], _ :: _ => .isFalse id
  | [], _ :: _, [] => .isFalse id
  | [], _ :: _, _ :: _ => .isFalse id
  | _ :: _, [], [] => .isFalse id
  | _ :: _, [], _ :: _ => .isFalse id
  | _ :: _, _ :: _, [] => .isFalse id

end Selection

namespace Dataset

/-! ## Histories -/

/-- A call that changes the extents or the cells of a dataset. -/
inductive Edit where
  | extend (extent : Nat)
  | write (operation : String) (s : Selection) (values : List Datum)

def Edit.run (d : Dataset) : Edit → Except StorageError Dataset
  | .extend extent => d.extend extent
  | .write operation s values => d.write operation s values

/-- What it answers on words. -/
def Edit.runIn (a : Arithmetic) (d : Dataset) : Edit → Answer (Except StorageError Dataset)
  | .extend extent => some (d.extend extent)
  | .write operation s values => d.writeIn a operation s values

/-- A call whose selection does not leave the words. -/
def Edit.Addressed : Edit → Prop
  | .extend _ => True
  | .write _ s _ => s.Addressed

instance : (e : Edit) → Decidable e.Addressed
  | .extend _ => .isTrue trivial
  | .write _ s _ => inferInstanceAs (Decidable s.Addressed)

/-- The dataset after the call, which is the one before if the call is refused. -/
def after (d : Dataset) (e : Edit) : Dataset :=
  match e.run d with
  | .ok d' => d'
  | .error _ => d

/-- The dataset after calls one after the other. -/
def edited (d : Dataset) (edits : List Edit) : Dataset := edits.foldl after d

/-- The same on words; nothing comes of it if one of the calls stops. -/
def editedIn (a : Arithmetic) (d : Dataset) (edits : List Edit) : Answer Dataset :=
  edits.foldlM (fun d e => do
    match ← e.runIn a d with
    | .ok d' => return d'
    | .error _ => return d) d

/-- The write of a call, if it is one and is let through. -/
def written? (d : Dataset) : Edit → Option (Selection × List Datum)
  | .extend _ => none
  | .write operation s values => (d.write operation s values).toOption.map fun _ => (s, values)

/-- The writes that are let through, in order. -/
def writes (d : Dataset) : List Edit → List (Selection × List Datum)
  | [] => []
  | e :: rest => (d.written? e).toList ++ (d.after e).writes rest

/-- What a write says of a cell: its value, if the cell is one of the selection. -/
def said (index : List Nat) (w : Selection × List Datum) : Option Datum :=
  if Selection.Has w.1.start w.1.count index then w.2[w.1.place index]? else none

/-- What the last of the writes that has a cell says of it. -/
def lastWritten (index : List Nat) : List (Selection × List Datum) → Option Datum
  | [] => none
  | w :: later => (lastWritten index later).or (said index w)

/-! ## One call

What a cell holds after a call depends on the call alone and on what the cell held before. -/

/-- What a call does: nothing, or another number of rows, or other chunks. -/
theorem after_cases (d : Dataset) (e : Edit) :
    d.after e = d ∨
      (∃ extent old rest, d.dims = old :: rest ∧ d.after e = { d with dims := extent :: rest }) ∨
      ∃ chunks, d.after e = { d with chunks } := by
  cases e with
  | extend extent =>
    cases h : d.extend extent with
    | error refusal => exact .inl (by simp only [after, Edit.run, h])
    | ok d' =>
      obtain ⟨old, rest, -, dims, -, rfl⟩ := extend_eq_ok h
      exact .inr (.inl ⟨extent, old, rest, dims, by simp only [after, Edit.run, h]⟩)
  | write operation s values =>
    cases h : d.write operation s values with
    | error refusal => exact .inl (by simp only [after, Edit.run, h])
    | ok d' =>
      obtain ⟨-, -, rfl⟩ := write_eq_ok h
      obtain ⟨chunks, eq⟩ := setCells_eq d s.cells values
      exact .inr (.inr ⟨chunks, by simp only [after, Edit.run, h, eq]⟩)

theorem spans_after {d : Dataset} (e : Edit) {index : List Nat} (spans : d.Spans index) :
    (d.after e).Spans index := by
  rcases d.after_cases e with same | ⟨extent, old, rest, dims, same⟩ | ⟨chunks, same⟩
  · rwa [same]
  · rw [same]
    obtain ⟨length, inside⟩ := spans
    rw [dims] at inside
    exact ⟨by simpa [rank, dims] using length, inside⟩
  · rw [same]
    exact spans

theorem Sound.after {d : Dataset} (sound : d.Sound) (e : Edit) : (d.after e).Sound := by
  unfold Dataset.after
  split
  · next d' h =>
    cases e with
    | extend extent => exact sound.extend h
    | write operation s values => exact sound.write h
  · exact sound

/-- A write that is let through says a value of each cell of its selection. -/
theorem said_of_has {d d' : Dataset} {operation : String} {s : Selection} {values : List Datum}
    (h : d.write operation s values = .ok d') {index : List Nat}
    (has : Selection.Has s.start s.count index) :
    s.cells[s.place index]? = some index ∧ ∃ v, values[s.place index]? = some v ∧
      said index (s, values) = some v := by
  obtain ⟨checked, count, -⟩ := write_eq_ok h
  obtain ⟨starts, counts, -⟩ := checkSelection_eq_ok checked
  have lengths := starts.trans counts.symm
  have here := Selection.getElem?_tuples lengths has
  rw [← Selection.cells_eq_tuples s lengths] at here
  obtain ⟨low, -⟩ := List.getElem?_eq_some_iff.1 here
  rw [count] at low
  exact ⟨here, _, List.getElem?_eq_getElem low, by
    rw [said, if_pos has, List.getElem?_eq_getElem low]⟩

/-- After a call, a cell holds what the call says of it, and otherwise what it held. -/
theorem cell_after {d : Dataset} (sound : d.Sound) (e : Edit) {index : List Nat}
    (spans : d.Spans index) :
    (d.after e).cell index = ((d.written? e).bind (said index)).getD (d.cell index) := by
  cases e with
  | extend extent =>
    cases h : d.extend extent with
    | error refusal => simp only [after, Edit.run, h, written?, Option.bind_none, Option.getD_none]
    | ok d' =>
      simp only [after, Edit.run, h, written?, Option.bind_none, Option.getD_none]
      exact cell_of_extend h index
  | write operation s values =>
    cases h : d.write operation s values with
    | error refusal =>
      simp only [after, Edit.run, h, written?, Except.toOption, Option.map_none, Option.bind_none,
        Option.getD_none]
    | ok d' =>
      simp only [after, Edit.run, h, written?, Except.toOption, Option.map_some, Option.bind_some]
      by_cases has : Selection.Has s.start s.count index
      · obtain ⟨here, v, value, told⟩ := said_of_has h has
        rw [told, cell_of_write sound.toChunked h here value, Option.getD_some]
      · obtain ⟨checked, -, -⟩ := write_eq_ok h
        obtain ⟨starts, counts, -⟩ := checkSelection_eq_ok checked
        have apart : index ∉ s.cells := fun mem =>
          has ((Selection.mem_cells (starts.trans counts.symm)).1 mem)
        rw [said, if_neg has, Option.getD_none,
          cell_of_write_of_not_mem sound.toChunked h spans apart]

/-! ## All the calls

By induction on the calls: a cell holds what the last of them wrote into it, or what it held
before that one. -/

theorem Sound.edited {d : Dataset} (sound : d.Sound) (edits : List Edit) :
    (d.edited edits).Sound := by
  induction edits generalizing d with
  | nil => exact sound
  | cons e rest ih => exact ih (sound.after e)

theorem lastWritten_append (index : List Nat) (w : Option (Selection × List Datum))
    (later : List (Selection × List Datum)) :
    lastWritten index (w.toList ++ later) = (lastWritten index later).or (w.bind (said index)) := by
  cases w with
  | none => simp
  | some w => rfl

/-- What the calls leave of a cell is what the last write let through says of it. -/
theorem cell_edited {d : Dataset} (sound : d.Sound) (edits : List Edit) {index : List Nat}
    (spans : d.Spans index) :
    (d.edited edits).cell index = (lastWritten index (d.writes edits)).getD (d.cell index) := by
  induction edits generalizing d with
  | nil => rfl
  | cons e rest ih =>
    have later := ih (sound.after e) (spans_after e spans)
    rw [cell_after sound e spans] at later
    rw [writes, lastWritten_append]
    show ((d.after e).edited rest).cell index = _
    rw [later]
    cases lastWritten index ((d.after e).writes rest) <;> rfl

/-- A cell that the calls leave a dataset with was one before them, whether or not its row was. -/
theorem spans_of_edited {d : Dataset} (edits : List Edit) {index : List Nat}
    (spans : (d.edited edits).Spans index) : d.Spans index := by
  induction edits generalizing d with
  | nil => exact spans
  | cons e rest ih =>
    have here := ih spans
    rcases d.after_cases e with same | ⟨extent, old, tail, dims, same⟩ | ⟨chunks, same⟩
    · rwa [same] at here
    · rw [same] at here
      obtain ⟨length, inside⟩ := here
      refine ⟨by simpa [rank, dims] using length, ?_⟩
      rw [dims]
      exact inside
    · rw [same] at here
      exact here

/-! ## Chunks do not show -/

/-- One dataset in chunks of different sizes, and perhaps with other cells. -/
def Rechunked (d d' : Dataset) : Prop := ∃ chunkRows chunks, d' = { d with chunkRows, chunks }

theorem Rechunked.checkSelection {d d' : Dataset} (h : Rechunked d d') (operation : String)
    (s : Selection) : d'.checkSelection operation s = d.checkSelection operation s := by
  obtain ⟨chunkRows, chunks, rfl⟩ := h
  rfl

/-- One call on two such datasets is refused alike, or let through on both. -/
theorem Rechunked.run {d d' : Dataset} (h : Rechunked d d') (e : Edit) :
    (∃ refusal, e.run d = .error refusal ∧ e.run d' = .error refusal) ∨
      ∃ c c', e.run d = .ok c ∧ e.run d' = .ok c' ∧ Rechunked c c' := by
  have checks := h.checkSelection
  obtain ⟨chunkRows, chunks, rfl⟩ := h
  cases e with
  | extend extent =>
    simp only [Edit.run, Dataset.extend]
    split
    · split
      · exact .inl ⟨_, rfl, rfl⟩
      · exact .inr ⟨_, _, rfl, rfl, chunkRows, chunks, rfl⟩
    · exact .inl ⟨_, rfl, rfl⟩
  | write operation s values =>
    simp only [Edit.run, Dataset.write, checks]
    cases d.checkSelection operation s with
    | error refusal => exact .inl ⟨refusal, rfl, rfl⟩
    | ok checked =>
      obtain ⟨after, eq⟩ := setCells_eq d s.cells values
      obtain ⟨after', eq'⟩ := setCells_eq { d with chunkRows, chunks } s.cells values
      simp only [eq, eq', bind, Except.bind]
      by_cases count : s.cells.length = values.length
      · rw [if_neg (not_not.2 count), if_neg (not_not.2 count)]
        exact .inr ⟨_, _, rfl, rfl, chunkRows, after', rfl⟩
      · rw [if_pos count, if_pos count]
        exact .inl ⟨_, rfl, rfl⟩

theorem Rechunked.after {d d' : Dataset} (h : Rechunked d d') (e : Edit) :
    Rechunked (d.after e) (d'.after e) := by
  unfold Dataset.after
  rcases h.run e with ⟨refusal, refused, refused'⟩ | ⟨c, c', done, done', same⟩
  · rw [refused, refused']
    exact h
  · rw [done, done']
    exact same

theorem Rechunked.written? {d d' : Dataset} (h : Rechunked d d') (e : Edit) :
    d'.written? e = d.written? e := by
  cases e with
  | extend extent => rfl
  | write operation s values =>
    have both := h.run (.write operation s values)
    simp only [Edit.run] at both
    simp only [Dataset.written?]
    rcases both with ⟨refusal, refused, refused'⟩ | ⟨c, c', done, done', -⟩
    · rw [refused, refused']
    · rw [done, done']
      rfl

theorem Rechunked.edited {d d' : Dataset} (h : Rechunked d d') (edits : List Edit) :
    Rechunked (d.edited edits) (d'.edited edits) ∧ d'.writes edits = d.writes edits := by
  induction edits generalizing d d' with
  | nil => exact ⟨h, rfl⟩
  | cons e rest ih =>
    obtain ⟨same, writes⟩ := ih (h.after e)
    refine ⟨same, ?_⟩
    rw [Dataset.writes, Dataset.writes, h.written? e, writes]

/-! ## Calls on words

The extents stay words, as no call gives a dataset more cells than words can count; so each call
does on words what it does on numbers. -/

theorem Sized.extend {d d' : Dataset} (sized : d.Sized) {extent : Nat}
    (h : d.extend extent = .ok d') : d'.Sized := by
  obtain ⟨old, rest, -, dims, -, rfl⟩ := extend_eq_ok h
  obtain ⟨row, chunk⟩ := sized
  refine ⟨by rwa [dims] at row, ?_⟩
  rwa [chunkLength, rowLength, dims] at chunk

/-- No call changes how many cells a row and a chunk have. -/
theorem Sized.after {d : Dataset} (sized : d.Sized) (e : Edit) : (d.after e).Sized := by
  unfold Dataset.after
  split
  · next d' h =>
    cases e with
    | extend extent => exact sized.extend h
    | write operation s values => exact sized.write h
  · exact sized

theorem Edit.runIn_eq (a : Arithmetic) {d : Dataset} (chunked : d.Chunked) (sized : d.Sized)
    {e : Edit} (addressed : e.Addressed) : e.runIn a d = some (e.run d) := by
  cases e with
  | extend extent => rfl
  | write operation s values => exact writeIn_eq a chunked sized addressed operation values

/-- Calls that do not leave the words do on words what they do on numbers, and none stops. -/
theorem editedIn_eq (a : Arithmetic) {d : Dataset} (sound : d.Sound) (sized : d.Sized)
    {edits : List Edit} (addressed : ∀ e ∈ edits, e.Addressed) :
    d.editedIn a edits = some (d.edited edits) ∧ (d.edited edits).Sized := by
  induction edits generalizing d with
  | nil => exact ⟨rfl, sized⟩
  | cons e rest ih =>
    obtain ⟨first, others⟩ := List.forall_mem_cons.1 addressed
    obtain ⟨later, sized'⟩ := ih (sound.after e) (sized.after e) others
    refine ⟨?_, sized'⟩
    rw [editedIn, List.foldlM_cons, Edit.runIn_eq a sound.toChunked sized first]
    show _ = some ((d.after e).edited rest)
    rw [← later]
    unfold Dataset.after
    cases e.run d <;> rfl

/-! ## Reading -/

/-- What a read of a selection that is within the extents gives. -/
theorem read_of_check {d : Dataset} {operation : String} {s : Selection}
    (checked : d.checkSelection operation s = .ok ()) :
    d.read operation s = .ok ((Selection.tuples s.start s.count).map d.cell) := by
  obtain ⟨starts, counts, -⟩ := checkSelection_eq_ok checked
  rw [read, checked, ← Selection.cells_eq_tuples s (starts.trans counts.symm)]
  rfl

/-- A selection that is within the extents stays so when the dataset grows. -/
theorem check_of_extend {d d' : Dataset} {extent : Nat} (h : d.extend extent = .ok d')
    {operation : String} {s : Selection} (checked : d.checkSelection operation s = .ok ()) :
    d'.checkSelection operation s = .ok () := by
  obtain ⟨old, rest, -, dims, low, rfl⟩ := extend_eq_ok h
  obtain ⟨starts, counts, within⟩ := fits_of_check checked
  rw [dims] at within
  refine checkSelection_eq_ok_of ?_ ?_ ?_
  · simpa [rank, dims] using starts
  · simpa [rank, dims] using counts
  · obtain ⟨bounds, others, first, rest', zip⟩ := List.forall₂_cons_right_iff.1 within
    rw [zip]
    exact .cons (Nat.le_trans first low) rest'

/-- After any calls, a read of a selection that is within the extents gives for each cell what the
last write let through says of it. -/
theorem read_of_edited {path : Path} {type : DataType} {dims : List Nat} {extensible : Bool}
    (axis : ¬(extensible = true ∧ dims = [])) {chunkRows : Nat} {fill : Datum} {edits : List Edit}
    {operation : String} {s : Selection}
    (checked : ((new path type dims extensible chunkRows fill).edited edits).checkSelection
      operation s = .ok ()) :
    ((new path type dims extensible chunkRows fill).edited edits).read operation s =
      .ok ((Selection.tuples s.start s.count).map fun index => (lastWritten index
        ((new path type dims extensible chunkRows fill).writes edits)).getD fill) := by
  obtain ⟨starts, counts, inside⟩ := checkSelection_eq_ok checked
  rw [read_of_check checked, ← Selection.cells_eq_tuples s (starts.trans counts.symm)]
  refine congrArg _ (List.map_congr_left fun index mem => ?_)
  exact cell_edited (sound_new axis) edits
    (spans_of_edited edits (spans_of_inside (inside index mem)))

/-- A new dataset after any calls on it, reckoning with words of either kind.  Each of the calls,
and any other, is let through or refused as it is with numbers: none stops, so none looks outside a
chunk.  A read of a selection within the extents gives, cell by cell in row-major order, what was
written last, and the fill where nothing was; and it gives the same after growing.  With chunks of
another size every read answers the same. -/
theorem read_edited (a : Arithmetic) (path : Path) (type : DataType) (dims : List Nat)
    (extensible : Bool) (axis : ¬(extensible = true ∧ dims = [])) (chunkRows : Nat) (fill : Datum)
    (sized : (new path type dims extensible chunkRows fill).Sized) (edits : List Edit)
    (addressed : ∀ e ∈ edits, e.Addressed) :
    let fresh := fun rows => new path type dims extensible rows fill
    let d := (fresh chunkRows).edited edits
    (fresh chunkRows).editedIn a edits = some d ∧
    (∀ e : Edit, e.Addressed → e.runIn a d = some (e.run d)) ∧
    (∀ operation s, s.Addressed → d.checkSelectionIn a operation s = some (.ok ()) →
      d.readIn a operation s = some (.ok ((Selection.tuples s.start s.count).map fun index =>
        (lastWritten index ((fresh chunkRows).writes edits)).getD fill)) ∧
      ∀ extent d', d.extend extent = .ok d' → d'.readIn a operation s = d.readIn a operation s) ∧
    ∀ rows, (fresh rows).Sized → ∃ d', (fresh rows).editedIn a edits = some d' ∧
      ∀ operation s, s.Addressed → d'.readIn a operation s = d.readIn a operation s := by
  intro fresh d
  have sound (rows : Nat) : (fresh rows).Sound := sound_new axis
  have chunked (rows : Nat) : ((fresh rows).edited edits).Chunked :=
    ((sound rows).edited edits).toChunked
  obtain ⟨ran, sized⟩ := editedIn_eq a (sound chunkRows) sized addressed
  refine ⟨ran, fun e addressed => Edit.runIn_eq a (chunked chunkRows) sized addressed, ?_, ?_⟩
  · intro operation s addressed checked
    rw [checkSelectionIn_eq a addressed.ends] at checked
    have checked : d.checkSelection operation s = .ok () := Option.some.inj checked
    rw [readIn_eq a (chunked chunkRows) sized addressed]
    refine ⟨congrArg some (read_of_edited axis checked), fun extent d' grown => ?_⟩
    have larger := ((sound chunkRows).edited edits).extend grown
    rw [readIn_eq a larger.toChunked (sized.extend grown) addressed,
      read_of_check checked, read_of_check (check_of_extend grown checked)]
    exact congrArg (some ∘ Except.ok)
      (List.map_congr_left fun index _ => cell_of_extend grown index)
  · intro rows sized'
    obtain ⟨ran', sized'⟩ := editedIn_eq a (sound rows) sized' addressed
    refine ⟨_, ran', fun operation s addressed => ?_⟩
    rw [readIn_eq a (chunked rows) sized' addressed,
      readIn_eq a (chunked chunkRows) sized addressed]
    have same : Rechunked (fresh chunkRows) (fresh rows) := ⟨max rows 1, ∅, rfl⟩
    obtain ⟨after, writes⟩ := same.edited edits
    have checks := after.checkSelection operation s
    cases checked : d.checkSelection operation s with
    | ok _ => rw [read_of_edited axis (checks.trans checked), read_of_edited axis checked, writes]
    | error refusal =>
      rw [read, read, checks, checked]
      rfl

/-- Two rows of three numbers in chunks of two rows.  The first write and the third are let through;
the second is refused, because the fourth row is not there yet, and so is shrinking. -/
theorem read_edited_of_numbers :
    let edits : List Edit :=
      [.write "write" ⟨[0, 0], [2, 3]⟩ [.int 1, .int 2, .int 3, .int 4, .int 5, .int 6],
        .write "write" ⟨[3, 0], [1, 1]⟩ [.int 7], .extend 4, .extend 1,
        .write "write" ⟨[1, 1], [2, 1]⟩ [.int 8, .int 9]]
    ∃ d, (new (.ofText "/x") (.scalar .int64) [2, 3] true 2 (.int 0)).editedIn .wrapping edits =
        some d ∧
      d.readIn .wrapping "read" ⟨[1, 0], [3, 2]⟩ =
        some (.ok [.int 4, .int 8, .int 0, .int 9, .int 0, .int 0]) := by
  intro edits
  obtain ⟨ran, -, reads, -⟩ := read_edited .wrapping (.ofText "/x") (.scalar .int64) [2, 3] true
    (by simp) 2 (.int 0) (by decide +kernel) edits (by decide +kernel)
  have given := (reads "read" ⟨[1, 0], [3, 2]⟩ (by decide +kernel) (by decide +kernel)).1
  refine ⟨_, ran, given.trans ?_⟩
  decide +kernel

/-- A column at the last word.  Where sums wrap it passes the check, though there are three columns,
and neither arithmetic comes to an end with a write there: one stops at the check, the other outside
the chunk. -/
theorem leaves_chunk :
    let d := new (.ofText "/m") (.scalar .int64) [2, 3] false 2 (.int 0)
    let far : Selection := ⟨[0, Bytes.span 8 - 1], [1, 1]⟩
    d.Sized ∧ d.checkSelectionIn .wrapping "write" far = some (.ok ()) ∧
      ∀ a, d.writeIn a "write" far [.int 1] = none := by
  refine ⟨by decide +kernel, by decide +kernel, fun a => ?_⟩
  cases a <;> decide +kernel

end Dataset
end StudyArchive
