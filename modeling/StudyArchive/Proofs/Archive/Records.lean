import StudyArchive.Proofs.Archive.Blocks
import StudyArchive.Proofs.Archive.Calls
import StudyArchive.Proofs.Archive.OnlyAt
import StudyArchive.Proofs.Archive.Touched
import StudyArchive.Proofs.Datum.Encoding
/-
# Lists of records

A list of records is a dataset with one axis, made at its full length and written from the first
cell on.  Writing replaces as many records as are given, and what the list held behind them stays
(`Archive.ends_writeRecords`).  Where nothing is, a list can be made and written to its end, unless
the container is closed, something that is no group lies above the path, or a record of the log has
no frame (`Obstructed`); types and shapes are no reason (`Archive.ends_createList`,
`Archive.ends_writeRecords_fits`).
-/

namespace StudyArchive

/-! ## One axis

With one axis, the cells of a dataset are a list, and a write from the first cell on replaces the
front of it. -/

namespace Selection

theorem cells_axis (n : Nat) :
    (⟨[0], [n]⟩ : Selection).cells = (List.range n).map fun i => [i] := by
  rw [cells_eq_tuples _ rfl]
  simp [tuples, List.map_eq_flatMap]

end Selection

namespace Dataset

variable {d d' : Dataset} {n : Nat} {values : List Datum} {operation : String}

/-- What a dataset holds, cell after cell. -/
def listed (d : Dataset) : List Datum := d.full.cells.map d.cell

theorem listed_eq (dims : d.dims = [n]) : d.listed = (List.range n).map fun i => d.cell [i] := by
  unfold listed full
  rw [dims]
  show (Selection.cells ⟨[0], [n]⟩).map d.cell = _
  rw [Selection.cells_axis, List.map_map]
  rfl

/-- Values that are written from the first cell on replace as many. -/
theorem listed_of_write (sound : d.Sound) (dims : d.dims = [n])
    (written : d.write operation ⟨[0], [values.length]⟩ values = .ok d') :
    d'.listed = values ++ d.listed.drop values.length := by
  obtain ⟨checked, -, -⟩ := write_eq_ok written
  have room : values.length ≤ n := by
    obtain ⟨-, -, within⟩ := checkSelection_eq_ok_iff.1 checked
    rw [dims] at within
    simpa using within
  have dims' : d'.dims = [n] := (alike_of_write written).2.trans dims
  rw [listed_eq dims, listed_eq dims']
  refine List.ext_getElem? fun i => ?_
  by_cases low : i < values.length
  · have here : (Selection.cells ⟨[0], [values.length]⟩)[i]? = some [i] := by
      rw [Selection.cells_axis]
      simp [low]
    have value : values[i]? = some values[i] := List.getElem?_eq_getElem low
    have cell := cell_of_write sound.toChunked written here value
    rw [List.getElem?_append_left low, value]
    simp [Nat.lt_of_lt_of_le low room, cell]
  · rw [List.getElem?_append_right (Nat.le_of_not_lt low), List.getElem?_drop,
      Nat.add_sub_cancel' (Nat.le_of_not_lt low)]
    by_cases inside : i < n
    · have spans : d.Spans [i] := spans_of_inside (by rw [dims]; exact .cons inside .nil)
      have apart : [i] ∉ (Selection.cells ⟨[0], [values.length]⟩) := by
        rw [Selection.cells_axis]
        simpa using low
      have cell := cell_of_write_of_not_mem sound.toChunked written spans apart
      simp [inside, cell]
    · simp [inside]

end Dataset

/-- Why nothing can be made below a group of an open container: what lies at the group's path or
above it is no group, or a record of the log has no frame. -/
inductive Obstructed (group : Path) : StorageError → Prop
  | blocked (blocker : Path) {kind : NodeKind} (other : kind ≠ .group) :
    Obstructed group (.groupBlocked group blocker kind)
  | frameless {e : StorageError} (unencodable : e.isUnencodable) : Obstructed group e

namespace Tree

variable {t : Tree} {group : Path} {e : StorageError}

theorem obstructed_of_ensureGroups {prior : Path} {segments : List String}
    (h : t.ensureGroups group prior segments = .error e) : Obstructed group e := by
  induction segments generalizing t prior with
  | nil => cases h
  | cons segment rest ih =>
    simp only [ensureGroups] at h
    split at h
    · exact ih h
    · next other none _ =>
      cases h
      refine .blocked _ fun same => ?_
      cases other with
      | group attributes => exact none attributes rfl
      | dataset _ | link _ => cases same
    · exact ih h

/-- A dataset can be made where nothing is, unless it is obstructed. -/
theorem obstructed_of_createDataset {d : Dataset} (free : t.nodes.get? d.path = none)
    (isParent : d.path.parent? = some group) (axis : ¬(d.extensible = true ∧ d.dims = []))
    (h : t.createDataset d = .error e) : Obstructed group e := by
  simp only [createDataset, SortedMap.contains, free, Option.isSome_none, Bool.false_eq_true,
    if_false, if_neg axis] at h
  rcases error_of_bind_eq_error h with refused | ⟨_, -, refused⟩
  · unfold ensureParent at refused
    rw [isParent] at refused
    exact obstructed_of_ensureGroups refused
  · cases refused

end Tree

namespace Container

variable {m : Mounted}

theorem ends_createDataset_obstructed (ready : m.Ready) {path group : Path}
    (free : m.container.tree.nodes.get? path = none) (isParent : path.parent? = some group)
    {type : DataType} {dims : List Nat} {extensible : Bool} {fill : Datum}
    (axis : ¬(extensible = true ∧ dims = [])) (fits : fill.conforms type) (chunkRows : Nat) :
    Ends (createDataset path type dims extensible chunkRows fill) m (fun _ _ => True)
      (fun e _ => Obstructed group e) := by
  obtain ⟨w, isOpen⟩ := ready.isOpen
  unfold createDataset
  simp only [fits, if_true, ends_bind, ends_get, ends_pure]
  refine (ends_commit isOpen _).mono (fun _ _ _ => trivial) ?_
  rintro e m' (⟨-, refused⟩ | ⟨unencodable, -⟩)
  · exact Tree.obstructed_of_createDataset free isParent axis refused
  · exact .frameless unencodable

theorem ends_append_closed (closed : m.container.writer = none) (r : Record) :
    Ends (append r) m (fun _ _ => False) (fun e _ => e = m.container.closedError) := by
  refine ends_of_forall (fun _ _ h => ?_) fun e m' h => ?_
  all_goals
    unfold append at h
    rw [closed] at h
    cases h
  rfl

end Container

namespace Archive

variable {a a' : Archive} {path group : Path} {id : DatasetId} {rows : List Datum} {n : Nat}

theorem Coherent.readRecords_of_list (coherent : a.Coherent)
    (denotes : a.tree.denoted? path = some id) (dims : (a.dataset id).dims = [n])
    (records : (a.dataset id).type.scalar? = none) :
    a.readRecords path = .ok (a.dataset id).listed :=
  readRecords_eq_ok (coherent.lookup_eq_ok denotes) (by rw [Dataset.rank, dims]; rfl) records

theorem denoted?_of_free (free : a.contains path = false) : a.tree.denoted? path = none := by
  have absent : a.tree.nodes.get? path = none := by
    simpa [contains, SortedMap.contains] using free
  unfold Tree.denoted? Tree.resolve?
  rw [show Tree.maxLinkDepth = 15 + 1 from rfl, Tree.follow, absent]

theorem Coherent.readRecords_of_free (coherent : a.Coherent) (free : a.contains path = false) :
    (a.readRecords path).toOption = none := by
  unfold readRecords lookupRank
  simp only
  rw [coherent.lookup_eq, Tree.openDataset_eq, denoted?_of_free free]
  rfl

/-! ## Writing records

What may go wrong is found out before anything is written, except for a record without a frame. -/

theorem ends_put_conforms (id : DatasetId) (operation : String) (s : Selection)
    (data : List Datum) :
    Ends (put id operation s data) a (fun _ _ => ∀ v ∈ data, v.conforms (a.dataset id).type)
      (fun _ _ => True) := by
  have checks : Ends (Container.write id operation s data) a.mounted
      (fun _ _ => ∀ v ∈ data, v.conforms (a.dataset id).type) (fun _ _ => True) := by
    refine Container.ends_write_of (fun _ _ => trivial) fun _ _ _ encoded _ => ?_
    have fit := Container.conforms_of_payload encoded
    exact ends_of_forall (fun _ _ _ => fit) fun _ _ _ => trivial
  exact ends_onContainer.2 (checks.imp fun _ _ fit => fit)

theorem ends_put_closed (closed : a.container.writer = none) (id : DatasetId) (operation : String)
    (s : Selection) (data : List Datum) :
    Ends (put id operation s data) a (fun _ _ => False) (fun _ _ => True) := by
  refine ends_onContainer.2 ?_
  refine Container.ends_write_of (fun _ _ => trivial) fun _ _ _ _ _ => ?_
  exact (Container.ends_append_closed (by exact closed) _).mono (fun _ _ => False.elim)
    fun _ _ _ => trivial

/-- Records belong into lists of records only. -/
theorem scalar?_of_record {type : DataType} {values : List Datum}
    (fits : (Datum.record values).conforms type) : type.scalar? = none := by
  cases type with
  | scalar e => cases fits
  | compound fields => rfl

/-- An archive after records were written to a path: they replace as many of the list that the path
denotes, and nothing else changes. -/
structure Overwritten (a : Archive) (path : Path) (rows : List Datum) (a' : Archive) : Prop where
  onlyAt : OnlyAt (· = path) a a'
  alike : ∀ id, a.tree.denoted? path = some id →
    (a'.dataset id).type = (a.dataset id).type ∧ (a'.dataset id).dims = (a.dataset id).dims
  records : a'.readRecords path =
    .ok (rows ++ ((a.readRecords path).toOption.getD []).drop rows.length)

theorem ends_writeRecords (coherent : a.Coherent) (some : rows ≠ [])
    (records : ∀ v ∈ rows, ∃ values, v = .record values) :
    Ends (writeRecords path rows) a (fun _ => Overwritten a path rows) (fun _ _ => True) := by
  unfold writeRecords
  simp only [ends_bind, ends_get]
  refine ends_liftExcept.2 ⟨fun id found => ?_, fun _ _ => trivial⟩
  have denotes : a.tree.denoted? path = .some id := finds_lookupRank a coherent id found
  have known := coherent.lt_of_denoted? denotes
  obtain ⟨n, dims⟩ : ∃ n, (a.dataset id).dims = [n] := by
    obtain ⟨other, -, found⟩ := exists_of_bind_eq_ok found
    obtain ⟨_, rank, found⟩ := exists_of_bind_eq_ok found
    cases found
    exact List.length_eq_one_iff.1 (rank_of_expectRank rank)
  refine ((ends_put_written coherent.ready known path).and
    (ends_put_conforms id "write_records" _ rows)).mono ?_ fun _ _ _ => trivial
  rintro _ a' ⟨⟨d', written, altered⟩, fit⟩
  have compound : (a.dataset id).type.scalar? = none := by
    obtain ⟨v, mem⟩ := List.exists_mem_of_ne_nil rows some
    obtain ⟨values, rfl⟩ := records v mem
    exact scalar?_of_record (fit _ mem)
  obtain ⟨alike, dims'⟩ := Dataset.alike_of_write written
  refine ⟨(altered.within coherent denotes).onlyAt rfl denotes, fun other same => ?_, ?_⟩
  · cases denotes.symm.trans same
    rw [altered.here]
    exact ⟨alike.type, dims'⟩
  · have denotes' := (Tree.denoted?_congr altered.nodes path).trans denotes
    rw [coherent.readRecords_of_list denotes dims compound,
      (altered.coherent coherent denotes).readRecords_of_list denotes'
        (by rw [altered.here, dims', dims]) (by rw [altered.here, alike.type, compound]),
      altered.here, Dataset.listed_of_write (coherent.sound_of_lt known) dims written]
    rfl

/-- Where as many records were as are written, these are all there are. -/
theorem Overwritten.records_of_all (replaced : Overwritten a path rows a') (coherent : a.Coherent)
    (denotes : a.tree.denoted? path = some id) (dims : (a.dataset id).dims = [rows.length])
    (records : (a.dataset id).type.scalar? = none) : a'.readRecords path = .ok rows := by
  have behind : (a.dataset id).listed.drop rows.length = [] := by
    rw [Dataset.listed_eq dims]
    simp
  rw [replaced.records, coherent.readRecords_of_list denotes dims records]
  simp only [Except.toOption, Option.getD_some, behind, List.append_nil]

/-- A list that is long enough takes records of its type; only a record without a frame fails. -/
theorem ends_writeRecords_fits (coherent : a.Coherent) (denotes : a.tree.denoted? path = some id)
    (dims : (a.dataset id).dims = [n]) (room : rows.length ≤ n)
    (fit : ∀ v ∈ rows, v.conforms (a.dataset id).type) :
    Ends (writeRecords path rows) a (fun _ _ => True) (fun e _ => e.isUnencodable) := by
  have here := Tree.getElem?_of_lt (coherent.lt_of_denoted? denotes)
  have node := coherent.ready.sound.placed here
  have found : a.lookupRank path "write_records" 1 = .ok id :=
    lookupRank_eq_ok (coherent.lookup_eq_ok denotes _) (by rw [Dataset.rank, dims]; rfl)
  have checked : (a.dataset id).checkSelection "write_records" ⟨[0], [rows.length]⟩ = .ok () := by
    refine Dataset.checkSelection_eq_ok_iff.2 ?_
    rw [dims]
    exact ⟨rfl, rfl, .cons (by simpa using room) .nil⟩
  have count : (Selection.cells ⟨[0], [rows.length]⟩).length = rows.length := by
    rw [Selection.cells_axis]
    simp
  obtain ⟨d', written⟩ := Dataset.exists_write_eq_ok checked count
  obtain ⟨bytes, encoded⟩ :=
    Container.exists_payload_of_conforms fit a.container "write_records"
  unfold writeRecords
  simp only [ends_bind, ends_get, found, ends_liftExcept_ok]
  refine ends_onContainer.2 ((Container.ends_write_turned coherent.ready node
    ((Tree.at?_of_node node).trans here) written encoded).mono ?_ ?_)
  · exact fun _ _ _ => trivial
  · exact fun _ _ bad => bad.1

theorem ends_writeRecords_closed (closed : a.container.writer = none) :
    Ends (writeRecords path rows) a (fun _ _ => False) (fun _ _ => True) := by
  unfold writeRecords
  simp only [ends_bind, ends_get]
  refine ends_liftExcept.2 ⟨fun id _ => ?_, fun _ _ => trivial⟩
  exact ends_put_closed closed id _ _ _

/-! ## Making lists

A list is made free of everything else, so nothing but an obstruction above its path, the closed
container or the frame is in the way. -/

/-- A new dataset where nothing is, filled with the zero of its type. -/
theorem ends_createDataset_free (coherent : a.Coherent) (free : a.contains path = false)
    (isParent : path.parent? = some group) {type : DataType} {dims : List Nat} {extensible : Bool}
    {hint : Option Nat} (axis : ¬(extensible = true ∧ dims = [])) :
    Ends (createDataset path type dims extensible hint none) a
      (fun _ a' => a'.Coherent ∧ ∃ chunkRows, Container.Made a.mounted
        (.new path type dims extensible chunkRows (.zero type)) a'.mounted)
      (fun e _ => Obstructed group e) := by
  have absent : a.tree.nodes.get? path = none := by
    simpa [contains, SortedMap.contains] using free
  have reasons : Ends (createDataset path type dims extensible hint none) a (fun _ _ => True)
      (fun e _ => Obstructed group e) := by
    unfold createDataset
    simp only [ends_bind, ends_get]
    refine ends_onContainer.2 ((Container.ends_createDataset_obstructed coherent.ready absent
      isParent axis (Datum.conforms_zero type) _).mono ?_ fun _ _ => id)
    intro _ _ _
    split
    · exact ends_modify.2 trivial
    · exact ends_pure.2 trivial
  exact ((ends_createDataset_or coherent).and reasons).mono (fun _ _ h => h.1) fun _ _ h => h.2

theorem ends_createDataset_refused (closed : a.container.writer = none) {type : DataType}
    {dims : List Nat} {extensible : Bool} {hint : Option Nat} :
    Ends (createDataset path type dims extensible hint none) a (fun _ _ => False)
      (fun e _ => e = a.container.closedError) := by
  unfold createDataset Container.createDataset Container.commit
  simp only [ends_bind, ends_get]
  refine ends_onContainer.2 ?_
  have fits : (Datum.zero type).conforms type := Datum.conforms_zero type
  have isClosed : a.mounted.container.isClosed = true := by
    unfold Container.isClosed
    rw [show a.mounted.container.writer = none from closed]
    rfl
  simp [fits, isClosed]
  rfl

/-- A list of some length, of records with some fields, is made as any other dataset. -/
theorem createCompound_eq {fields : List Field} (some : n ≠ 0) (named : fields ≠ []) :
    createCompound path [n] fields = createDataset path (.compound fields) [n] false none none := by
  simp [createCompound, createEmptyOf, some, named, Ne.symm some]

/-- A list of records is made where nothing is. -/
theorem ends_createList (coherent : a.Coherent) (free : a.contains path = false)
    (isParent : path.parent? = some group) {fields : List Field} (some : n ≠ 0)
    (named : fields ≠ []) :
    Ends (createCompound path [n] fields) a
      (fun _ a' => OnlyAt (· = path) a a' ∧ ∃ id, a'.tree.denoted? path = .some id ∧
        (a'.dataset id).type = .compound fields ∧ (a'.dataset id).dims = [n])
      (fun e _ => Obstructed group e) := by
  rw [createCompound_eq some named]
  refine (ends_createDataset_free coherent free isParent (by simp)).imp ?_
  rintro _ a' ⟨coherent', chunkRows, made⟩
  have here := (made.at_ path).trans (if_pos rfl)
  obtain ⟨id, node, there⟩ := Tree.at?_eq_some.1 here
  have dataset : a'.dataset id = _ := Tree.dataset_of_getElem? there
  refine ⟨onlyAt_of_made coherent coherent' made rfl, id, Tree.denoted?_of_node node, ?_, ?_⟩
  · rw [dataset]
    rfl
  · rw [dataset]
    rfl

end Archive
end StudyArchive
