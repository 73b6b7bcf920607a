import StudyArchive.Proofs.Archive.Sharing
import StudyArchive.Proofs.Matrix
/-
# Refused writes

A typed write checks what it is given before it changes anything: if it is refused, the archive is
as it was (`Archive.TypedWrite.all_or_nothing`).  That is so of every archive in use, since these
are coherent (`Archive.InUse.coherent`).  A list of matrices must be of one shape for it.
Appending such a list checks the first matrix before the row is made, and each further one when its
turn comes, so that a ragged list leaves a row behind (`Archive.TypedWrite.ragged_leaves_row`).
-/

namespace StudyArchive

/-! ## Selections within extents -/

namespace Selection

/-- A selection that stays within extents, axis by axis. -/
def Fits (s : Selection) (dims : List Nat) : Prop :=
  s.start.length = dims.length ∧ s.count.length = dims.length ∧
    List.Forall₂ (fun sc d => sc.1 + sc.2 ≤ d) (s.start.zip s.count) dims

theorem fits_lead {lead leadDims : List Nat} (length : lead.length = leadDims.length)
    {start count dims : List Nat} :
    (Selection.mk (lead ++ start) (lead.map (fun _ => 1) ++ count)).Fits (leadDims ++ dims) ↔
      Inside leadDims lead ∧ (Selection.mk start count).Fits dims := by
  induction lead generalizing leadDims with
  | nil =>
    obtain rfl := List.eq_nil_of_length_eq_zero length.symm
    simp [Fits]
  | cons i lead ih =>
    cases leadDims with
    | nil => cases length
    | cons n leadDims =>
      have rest := ih (Nat.succ.inj length)
      simp only [Fits, List.length_append, List.length_map] at rest
      simp only [Fits, List.cons_append, List.map_cons, List.zip_cons_cons, List.forall₂_cons,
        List.length_cons, List.length_append, List.length_map, Nat.add_right_cancel_iff]
      rw [and_assoc, ← rest]
      simp only [Nat.succ_le_iff]
      tauto

theorem size_lead (lead start count : List Nat) :
    (Selection.mk (lead ++ start) (lead.map (fun _ => 1) ++ count)).size = volume count := by
  induction lead with
  | nil => rfl
  | cons i lead ih => simpa [Selection.size, volume] using ih

end Selection

theorem Dataset.checkSelection_eq_ok_iff {d : Dataset} {operation : String} {s : Selection} :
    d.checkSelection operation s = .ok () ↔ s.Fits d.dims := by
  constructor
  · intro checked
    obtain ⟨start, count, within⟩ := fits_of_check checked
    exact ⟨start, count, within⟩
  · rintro ⟨start, count, within⟩
    exact checkSelection_eq_ok_of start count within

namespace Archive

open Selection

variable {a a' : Archive} {path : Path} {id : DatasetId} {e : ElementType} {dims : List Nat}

/-! ## Putting

A put that is right fails for a frame only, and then nothing has changed. -/

/-- An archive with a dataset of given extents that holds elements of one type. -/
structure Holds (a : Archive) (id : DatasetId) (e : ElementType) (dims : List Nat) : Prop where
  ready : a.mounted.Ready
  known : id < a.tree.datasets.length
  type : (a.dataset id).type = .scalar e
  dims_eq : (a.dataset id).dims = dims

/-- A step that changes nothing if it is refused for any other reason than a record without a
frame. -/
def AllOrNothing {α : Type} (act : Action α) (a : Archive) : Prop :=
  Ends act a (fun _ _ => True) (fun err a' => err.isUnencodable ∨ a' = a)

/-- Whatever is put: it is within the dataset, or nothing happens. -/
theorem ends_put_or (ready : a.mounted.Ready) (operation : String) (s : Selection)
    (data : List Datum) :
    Ends (put id operation s data) a (fun _ _ => s.Fits (a.dataset id).dims)
      (fun err a' => err.isUnencodable ∨ a' = a) := by
  obtain ⟨w, isOpen⟩ := ready.isOpen
  have checks : Ends (Container.write id operation s data) a.mounted
      (fun _ _ => s.Fits (a.dataset id).dims) (fun _ _ => True) := by
    refine Container.ends_write_of (fun _ _ => trivial) fun _ _ checked _ _ => ?_
    have fits := Dataset.checkSelection_eq_ok_iff.1 checked
    exact ends_of_forall (fun _ _ _ => fits) fun _ _ _ => trivial
  refine ends_onContainer.2 ((checks.and (Mutation.ends_run_refused isOpen
    (.write id operation s data))).mono (fun _ _ h => h.1) ?_)
  rintro err m ⟨-, refused⟩
  unfold Mutation.Refused at refused
  split at refused
  · exact .inl ‹_›
  · exact .inr (by rw [refused])

/-- Elements that are put into a dataset of their type get there exactly if there is room. -/
theorem ends_put_fits (h : a.Holds id e dims) {operation : String} {s : Selection}
    {values : List e.Value} (size : s.size = values.length) :
    Ends (put id operation s (values.map e.toDatum)) a
      (fun _ a' => s.Fits dims ∧ a'.Holds id e dims)
      (fun err a' => err.isUnencodable ∨ a' = a ∧ ¬s.Fits dims) := by
  obtain ⟨ready, known, type, rfl⟩ := h
  by_cases fits : s.Fits (a.dataset id).dims
  · have count : s.cells.length = (values.map e.toDatum).length := by
      rw [length_cells s (fits.1.trans fits.2.1.symm), size, List.length_map]
    have checked : (a.dataset id).checkSelection operation s = .ok () :=
      Dataset.checkSelection_eq_ok_iff.2 fits
    obtain ⟨d', written⟩ := Dataset.exists_write_eq_ok checked count
    obtain ⟨alike, dims⟩ := Dataset.alike_of_write written
    refine (ends_put_altered ready (Tree.getElem?_of_lt known) .root type written).mono ?_
      fun _ _ bad => .inl bad.1
    rintro _ a' ⟨-, altered⟩
    refine ⟨fits, altered.ready, altered.length ▸ known, ?_, ?_⟩
    · rw [altered.here, alike.type, type]
    · rw [altered.here, dims]
  · refine (ends_put_or ready operation s _).mono (fun _ _ within => absurd within fits) ?_
    exact fun err a' bad => bad.imp_right fun same => ⟨same, fits⟩

/-! ## Matrices

A matrix goes to one place of the leading axes.  If the first of its rows has room there, all have;
and if the first matrix of a list has, all do that have its shape. -/

section
variable {lead leadDims : List Nat} (length : lead.length = leadDims.length)
include length

theorem ends_putRows_fits {height width : Nat} (h : a.Holds id e (leadDims ++ [height, width]))
    {operation : String} {r : Nat} {rows : List (List e.Value)} (low : r + rows.length ≤ height)
    (wide : ∀ row ∈ rows, row.length = width) :
    Ends (putRows id operation lead width r rows) a
      (fun _ a' => a'.Holds id e (leadDims ++ [height, width]) ∧ (Inside leadDims lead ∨ a' = a))
      (fun err a' => err.isUnencodable ∨ a' = a ∧ ¬Inside leadDims lead) := by
  induction rows generalizing a r with
  | nil => exact ends_pure.2 ⟨h, .inr rfl⟩
  | cons row rows ih =>
    rw [List.length_cons] at low
    have size : (Selection.mk (lead ++ [r, 0]) (lead.map (fun _ => 1) ++ [1, width])).size =
        row.length := by
      rw [size_lead, wide row List.mem_cons_self]
      simp [volume]
    have fits : (Selection.mk (lead ++ [r, 0]) (lead.map (fun _ => 1) ++ [1, width])).Fits
        (leadDims ++ [height, width]) ↔ Inside leadDims lead := by
      rw [fits_lead length]
      have : r + 1 ≤ height := by omega
      simp [Fits, this]
    unfold putRows
    refine ends_bind.2 ((ends_put_fits h size).mono ?_ ?_)
    · rintro _ a₁ ⟨within, h₁⟩
      have inside := fits.1 within
      refine (ih h₁ (by omega) fun row' mem => wide row' (List.mem_cons_of_mem _ mem)).mono ?_ ?_
      · exact fun _ a₂ h₂ => ⟨h₂.1, .inl inside⟩
      · exact fun err a₂ bad => bad.imp_right fun out => absurd inside out.2
    · exact fun err a₁ bad => bad.imp_right fun out => ⟨out.1, fun inside => out.2 (fits.2 inside)⟩

theorem ends_putMatrix_fits {room : List Nat} (h : a.Holds id e (leadDims ++ room))
    (operation : String) (m : Matrix e.Value) (transpose : Bool) :
    Ends (putMatrix id operation lead m transpose) a
      (fun _ a' => room = diskShape m transpose ∧ a'.Holds id e (leadDims ++ room) ∧
        (Inside leadDims lead ∨ a' = a))
      (fun err a' => err.isUnencodable ∨
        a' = a ∧ ¬(Inside leadDims lead ∧ room = diskShape m transpose)) := by
  have drop : (a.dataset id).dims.drop lead.length = room := by
    rw [h.dims_eq, length, List.drop_left]
  unfold putMatrix
  refine ends_bind.2 (ends_get.2 ?_)
  simp only [drop]
  refine ends_ite.2 ⟨fun shape => ?_, fun other => ends_bind.2 (ends_throw.2
    (.inr ⟨rfl, fun both => other both.2⟩))⟩
  subst shape
  refine ends_ite.2 ⟨fun transposed => ?_, fun straight => ?_⟩
  · obtain rfl : transpose = true := transposed
    have size : (Selection.mk (lead ++ [0, 0])
        (lead.map (fun _ => 1) ++ diskShape m true)).size = m.toColumnMajor.length := by
      rw [size_lead, m.length_toColumnMajor]
      simp [diskShape, volume]
    have fits : (Selection.mk (lead ++ [0, 0]) (lead.map (fun _ => 1) ++ diskShape m true)).Fits
        (leadDims ++ diskShape m true) ↔ Inside leadDims lead := by
      rw [fits_lead length]
      simp [Fits, diskShape]
    refine (ends_put_fits h size).mono ?_ ?_
    · exact fun _ a' put => ⟨rfl, put.2, .inl (fits.1 put.1)⟩
    · exact fun err a' bad => bad.imp_right fun out => ⟨out.1, fun both => out.2 (fits.2 both.1)⟩
  · obtain rfl : transpose = false := by simpa using straight
    have h : a.Holds id e (leadDims ++ [m.rows, m.cols]) := h
    refine (ends_putRows_fits length h (by simp [m.length_rowList])
      fun row mem => m.length_of_mem_rowList mem).mono ?_ ?_
    · exact fun _ a' put => ⟨rfl, put⟩
    · exact fun err a' bad => bad.imp_right fun out => ⟨out.1, fun both => out.2 both.1⟩

theorem ends_putEach_fits {depth : Nat} {room shape : List Nat}
    (h : a.Holds id e (leadDims ++ depth :: room)) {operation : String} {transpose : Bool}
    {k : Nat} {matrices : List (Matrix e.Value)} (low : k + matrices.length ≤ depth)
    (alike : ∀ m ∈ matrices, diskShape m transpose = shape) :
    Ends (putEach id operation lead transpose k matrices) a
      (fun _ _ => True)
      (fun err a' => err.isUnencodable ∨ a' = a ∧ ¬(Inside leadDims lead ∧ room = shape)) := by
  induction matrices generalizing a k with
  | nil => exact ends_pure.2 trivial
  | cons m matrices ih =>
    rw [List.length_cons] at low
    obtain rfl := alike m List.mem_cons_self
    have inside : Inside (leadDims ++ [depth]) (lead ++ [k]) ↔ Inside leadDims lead := by
      refine ⟨fun both => ?_, fun front => List.rel_append front (.cons (by omega) .nil)⟩
      have front := List.forall₂_take lead.length both
      rwa [List.take_left, length, List.take_left] at front
    have assoc : leadDims ++ depth :: room = (leadDims ++ [depth]) ++ room := by simp
    unfold putEach
    refine ends_bind.2 ((ends_putMatrix_fits (by simp [length]) (assoc ▸ h) operation m
      transpose).mono ?_ ?_)
    · rintro _ a₁ ⟨shape, h₁, way⟩
      refine (ih (assoc ▸ h₁) (by omega) fun m' mem => alike m' (List.mem_cons_of_mem _ mem)).mono
        (fun _ _ _ => trivial) ?_
      rintro err a₂ (unencodable | ⟨rfl, out⟩)
      · exact .inl unencodable
      · rcases way with within | rfl
        · exact absurd ⟨inside.1 within, shape⟩ out
        · exact .inr ⟨rfl, out⟩
    · exact fun err a₁ bad => bad.imp_right fun out =>
        ⟨out.1, fun both => out.2 ⟨inside.2 both.1, both.2⟩⟩

end

/-! ## Finding and growing

A lookup that succeeds tells rank, type and extensibility; growing then fails for nothing but a
frame. -/

theorem rank_of_expectRank {d : Dataset} {operation : String} {rank : Nat}
    (h : expectRank d operation rank = .ok ()) : d.rank = rank := by
  unfold expectRank at h
  split at h
  · assumption
  · cases h

theorem type_of_expectType {d : Dataset} {operation : String}
    (h : expectType d operation e = .ok ()) : d.type = .scalar e := by
  unfold expectType at h
  split at h
  · next scalar =>
    cases eq : d.type with
    | scalar e' =>
      rw [eq] at scalar
      cases scalar
      rfl
    | compound fields =>
      rw [eq] at scalar
      cases scalar
  · cases h

/-- Whatever is found is what the path denotes, of the rank and the type that were asked for. -/
theorem Coherent.of_lookupTyped (coherent : a.Coherent) {operation : String} {rank : Nat}
    (found : a.lookupTyped path operation rank e = .ok id) :
    a.tree.denoted? path = some id ∧ (a.dataset id).type = .scalar e ∧
      (a.dataset id).rank = rank := by
  obtain ⟨id', ranked, found⟩ := exists_of_bind_eq_ok found
  obtain ⟨id'', looked, ranked⟩ := exists_of_bind_eq_ok ranked
  obtain ⟨⟨⟩, rank_eq, ranked⟩ := exists_of_bind_eq_ok ranked
  obtain ⟨⟨⟩, type_eq, found⟩ := exists_of_bind_eq_ok found
  cases ranked
  cases found
  exact ⟨coherent.denoted?_of_lookup looked, type_of_expectType type_eq,
    rank_of_expectRank rank_eq⟩

theorem ends_find_holds (coherent : a.Coherent) (path : Path) (operation : String) (rank : Nat)
    (e : ElementType) :
    Ends (find path operation rank e) a
      (fun id a' => a' = a ∧ ∃ dims, dims.length = rank ∧ a.Holds id e dims)
      (fun _ a' => a' = a) := by
  unfold find
  refine ends_bind.2 (ends_get.2 (ends_liftExcept.2 ⟨fun id found => ⟨rfl, ?_⟩, fun _ _ => rfl⟩))
  obtain ⟨denotes, type, rank⟩ := coherent.of_lookupTyped found
  exact ⟨(a.dataset id).dims, rank, coherent.ready,
    coherent.ready.sound.lt_of_denoted? denotes, type, rfl⟩

theorem ends_grow_holds {n : Nat} {tail : List Nat} (h : a.Holds id e (n :: tail)) (path : Path)
    (operation : String) :
    Ends (grow path id operation) a (fun i a' => i = n ∧ a'.Holds id e ((n + 1) :: tail))
      (fun err a' => err.isUnencodable ∨ a' = a) := by
  have here : a.tree.datasets[id]? = some (a.dataset id) := Tree.getElem?_of_lt h.known
  by_cases extensible : (a.dataset id).extensible = true
  · refine (ends_grow_altered h.ready here path extensible operation).mono ?_
      fun _ _ bad => .inl bad.1
    rintro _ a' ⟨rfl, -, d', grown, altered⟩
    have rows : (a.dataset id).rows = n := by simp [Dataset.rows, h.dims_eq]
    refine ⟨rows, altered.ready, altered.length ▸ h.known, ?_, ?_⟩
    · rw [altered.here, grown.alike.type]
      exact h.type
    · rw [altered.here, grown.dims, rows, h.dims_eq, List.tail_cons]
  · unfold grow
    refine ends_bind.2 (ends_get.2 (ends_ite.2 ⟨fun yes => absurd yes extensible, fun _ =>
      ends_bind.2 (ends_throw.2 (.inr rfl))⟩))

/-- What fills a new row is refused for want of a frame only. -/
theorem ends_grow_fill {n : Nat} {tail : List Nat} (h : a.Holds id e (n :: tail)) (path : Path)
    (operation : String) {fill : Nat → Action Unit}
    (fills : ∀ a', a'.Holds id e ((n + 1) :: tail) →
      Ends (fill n) a' (fun _ _ => True) (fun err _ => err.isUnencodable)) :
    AllOrNothing (grow path id operation >>= fill) a := by
  refine ends_bind.2 ((ends_grow_holds h path operation).mono ?_ fun _ _ bad => bad)
  rintro _ a' ⟨rfl, h'⟩
  exact (fills a' h').mono (fun _ _ _ => trivial) fun _ _ unencodable => .inl unencodable

theorem tail_of_checkTrailing {d : Dataset} {operation : String} {extents : List Nat}
    (h : checkTrailing d operation extents = .ok ()) : d.dims.tail = extents := by
  unfold checkTrailing at h
  split at h
  · assumption
  · cases h

theorem allOrNothing_find (coherent : a.Coherent) (path : Path) (operation : String) (rank : Nat)
    (e : ElementType) {next : DatasetId → Action Unit}
    (each : ∀ id dims, dims.length = rank → a.Holds id e dims → AllOrNothing (next id) a) :
    AllOrNothing (find path operation rank e >>= next) a := by
  refine ends_bind.2 ((ends_find_holds coherent path operation rank e).mono ?_
    fun _ _ same => .inr same)
  rintro id _ ⟨rfl, dims, length, h⟩
  exact each id dims length h

theorem allOrNothing_check {check : Except StorageError Unit} {next : Unit → Action Unit}
    (passed : check = .ok () → AllOrNothing (next ()) a) :
    AllOrNothing (liftExcept check >>= next) a :=
  ends_bind.2 (ends_liftExcept.2 ⟨fun _ ok => passed ok, fun _ _ => .inr rfl⟩)

theorem allOrNothing_put (ready : a.mounted.Ready) (operation : String) (s : Selection)
    (data : List Datum) : AllOrNothing (put id operation s data) a :=
  (ends_put_or ready operation s data).mono (fun _ _ _ => trivial) fun _ _ bad => bad

/-! ## Appending -/

theorem allOrNothing_appendScalar (coherent : a.Coherent) (path : Path) (e : ElementType)
    (v : e.Value) : AllOrNothing (appendScalar path e v) a := by
  refine allOrNothing_find coherent path _ 1 e fun id dims length h => ?_
  obtain ⟨n, rfl⟩ := List.length_eq_one_iff.1 length
  refine ends_grow_fill h path _ fun a' h' => ?_
  have fits : (Selection.ofCell [n]).Fits [n + 1] := by simp [Fits, Selection.ofCell]
  have size : (Selection.ofCell [n]).size = [v].length := rfl
  exact (ends_put_fits h' size).mono (fun _ _ _ => trivial)
    fun _ _ bad => bad.resolve_right fun out => out.2 fits

theorem allOrNothing_appendVector (coherent : a.Coherent) (path : Path) (e : ElementType)
    (values : List e.Value) : AllOrNothing (appendVector path e values) a := by
  refine allOrNothing_find coherent path _ 2 e fun id dims length h => ?_
  obtain ⟨n, width, rfl⟩ := List.length_eq_two.1 length
  refine ends_bind.2 (ends_get.2 (allOrNothing_check fun checked => ?_))
  have trailing := tail_of_checkTrailing checked
  rw [h.dims_eq] at trailing
  obtain rfl : width = values.length := by simpa using trailing
  refine ends_grow_fill h path _ fun a' h' => ?_
  have fits : (Selection.mk ([n] ++ [0]) ([n].map (fun _ => 1) ++ [values.length])).Fits
      [n + 1, values.length] := by simp [Fits]
  have size := size_lead [n] [0] [values.length]
  rw [show volume [values.length] = values.length by simp [volume]] at size
  exact (ends_put_fits h' size).mono (fun _ _ _ => trivial)
    fun _ _ bad => bad.resolve_right fun out => out.2 fits

theorem allOrNothing_appendMatrix (coherent : a.Coherent) (path : Path) (e : ElementType)
    (m : Matrix e.Value) (transpose : Bool) : AllOrNothing (appendMatrix path e m transpose) a := by
  refine allOrNothing_find coherent path _ 3 e fun id dims length h => ?_
  obtain ⟨n, room, rfl⟩ := List.exists_cons_of_length_eq_add_one length
  refine ends_bind.2 (ends_get.2 (allOrNothing_check fun checked => ?_))
  have trailing := tail_of_checkTrailing checked
  rw [h.dims_eq] at trailing
  refine ends_grow_fill h path _ fun a' h' => ?_
  have inside : Inside [n + 1] [n] := .cons (Nat.lt_succ_self n) .nil
  exact (ends_putMatrix_fits (show [n].length = [n + 1].length from rfl) h' _ m transpose).mono
    (fun _ _ _ => trivial) fun _ _ bad => bad.resolve_right fun out => out.2 ⟨inside, trailing⟩

theorem allOrNothing_appendMatrices (coherent : a.Coherent) (path : Path) (e : ElementType)
    {matrices : List (Matrix e.Value)} {transpose : Bool}
    (alike : ∀ m ∈ matrices, ∀ m' ∈ matrices, diskShape m transpose = diskShape m' transpose) :
    AllOrNothing (appendMatrices path e matrices transpose) a := by
  refine allOrNothing_find coherent path _ 4 e fun id dims length h => ?_
  obtain ⟨n, tail, rfl⟩ := List.exists_cons_of_length_eq_add_one length
  refine ends_bind.2 (ends_get.2 (allOrNothing_check fun checked => ?_))
  have trailing := tail_of_checkTrailing checked
  rw [h.dims_eq, List.tail_cons] at trailing
  cases matrices with
  | nil =>
    rw [trailing] at length
    cases length
  | cons first rest =>
    simp only at trailing
    subst trailing
    refine ends_grow_fill h path _ fun a' h' => ?_
    have extent : ((a'.dataset id).dims[1]?).getD 0 = (first :: rest).length := by
      rw [h'.dims_eq]
      rfl
    have inside : Inside [n + 1] [n] := .cons (Nat.lt_succ_self n) .nil
    unfold putMatrices
    refine ends_bind.2 (ends_get.2 ?_)
    simp only [List.length_singleton, extent, if_true]
    exact (ends_putEach_fits (show [n].length = [n + 1].length from rfl) h' (by omega)
      fun m mem => alike m mem first List.mem_cons_self).mono (fun _ _ _ => trivial)
      fun _ _ bad => bad.resolve_right fun out => out.2 ⟨inside, rfl⟩

/-! ## Writing over what is there -/

theorem allOrNothing_setVector (coherent : a.Coherent) (path : Path) (e : ElementType)
    (values : List e.Value) (index : Nat) (row : Bool) :
    AllOrNothing (setVector path e values index row) a := by
  refine allOrNothing_find coherent path _ 2 e fun id dims length h => ?_
  refine ends_bind.2 (ends_get.2 (ends_ite.2 ⟨fun _ => ?_, fun _ => ?_⟩))
  · exact allOrNothing_check fun _ => allOrNothing_put h.ready _ _ _
  · refine ends_ite.2 ⟨fun _ => ?_, fun _ => ends_bind.2 (ends_throw.2 (.inr rfl))⟩
    refine ends_ite.2 ⟨fun _ => ?_, fun _ => ends_bind.2 (ends_throw.2 (.inr rfl))⟩
    exact allOrNothing_put h.ready _ _ _

theorem allOrNothing_setMatrix (coherent : a.Coherent) (path : Path) (e : ElementType)
    (m : Matrix e.Value) (index : Nat) (transpose : Bool) :
    AllOrNothing (setMatrix path e m index transpose) a := by
  refine allOrNothing_find coherent path _ 3 e fun id dims length h => ?_
  obtain ⟨n, room, rfl⟩ := List.exists_cons_of_length_eq_add_one length
  exact (ends_putMatrix_fits (show [index].length = [n].length from rfl) h _ m transpose).mono
    (fun _ _ _ => trivial) fun _ _ bad => bad.imp_right And.left

theorem allOrNothing_setMatrices (coherent : a.Coherent) (path : Path) (e : ElementType)
    {matrices : List (Matrix e.Value)} (index : Nat) {transpose : Bool}
    (alike : ∀ m ∈ matrices, ∀ m' ∈ matrices, diskShape m transpose = diskShape m' transpose) :
    AllOrNothing (setMatrices path e matrices index transpose) a := by
  refine allOrNothing_find coherent path _ 4 e fun id dims length h => ?_
  obtain ⟨n, tail, rfl⟩ := List.exists_cons_of_length_eq_add_one length
  obtain ⟨depth, room, rfl⟩ := List.exists_cons_of_length_eq_add_one (Nat.succ.inj length)
  have extent : ((a.dataset id).dims[1]?).getD 0 = depth := by
    rw [h.dims_eq]
    rfl
  unfold putMatrices
  refine ends_bind.2 (ends_get.2 ?_)
  simp only [List.length_singleton, extent]
  refine ends_ite.2 ⟨fun count => ?_, fun _ => ends_bind.2 (ends_throw.2 (.inr rfl))⟩
  cases matrices with
  | nil => exact ends_pure.2 trivial
  | cons first rest =>
    exact (ends_putEach_fits (show [index].length = [n].length from rfl) h (by omega)
      fun m mem => alike m mem first List.mem_cons_self).mono (fun _ _ _ => trivial)
      fun _ _ bad => bad.imp_right And.left

theorem allOrNothing_writeVector (coherent : a.Coherent) (path : Path) (e : ElementType)
    (values : List e.Value) : AllOrNothing (writeVector path e values) a := by
  refine allOrNothing_find coherent path _ 1 e fun id dims length h => ?_
  refine ends_bind.2 (ends_get.2 (ends_ite.2 ⟨fun _ => ?_, fun _ =>
    ends_bind.2 (ends_throw.2 (.inr rfl))⟩))
  exact allOrNothing_put h.ready _ _ _

theorem allOrNothing_writeMatrix (coherent : a.Coherent) (path : Path) (e : ElementType)
    (m : Matrix e.Value) (transpose : Bool) : AllOrNothing (writeMatrix path e m transpose) a := by
  refine allOrNothing_find coherent path _ 2 e fun id dims length h => ?_
  have top : ([] : List Nat).length = ([] : List Nat).length := rfl
  exact (ends_putMatrix_fits top h _ m transpose).mono
    (fun _ _ _ => trivial) fun _ _ bad => bad.imp_right And.left

/-- Records are put as they are given, into a list of any type. -/
theorem allOrNothing_putRecords (coherent : a.Coherent) (path : Path) (operation : String)
    (s : Selection) (values : List Datum) :
    AllOrNothing (do
      let id ← liftExcept ((← get).lookupRank path operation 1)
      put id operation s values) a := by
  refine ends_bind.2 (ends_get.2 (ends_bind.2 (ends_liftExcept.2
    ⟨fun id _ => ?_, fun _ _ => .inr rfl⟩)))
  exact allOrNothing_put coherent.ready _ _ _

/-! ## Typed writes -/

/-- The calls that write typed values, or records. -/
inductive TypedWrite where
  | appendScalar (path : Path) (e : ElementType) (v : e.Value)
  | appendVector (path : Path) (e : ElementType) (values : List e.Value)
  | appendMatrix (path : Path) (e : ElementType) (m : Matrix e.Value) (transpose : Bool)
  | appendMatrices (path : Path) (e : ElementType) (matrices : List (Matrix e.Value))
      (transpose : Bool)
  | setScalar (path : Path) (e : ElementType) (v : e.Value) (index : Nat)
  | setVector (path : Path) (e : ElementType) (values : List e.Value) (index : Nat) (row : Bool)
  | setMatrix (path : Path) (e : ElementType) (m : Matrix e.Value) (index : Nat)
      (transpose : Bool)
  | setMatrices (path : Path) (e : ElementType) (matrices : List (Matrix e.Value)) (index : Nat)
      (transpose : Bool)
  | writeScalar (path : Path) (e : ElementType) (v : e.Value)
  | writeVector (path : Path) (e : ElementType) (values : List e.Value)
  | writeMatrix (path : Path) (e : ElementType) (m : Matrix e.Value) (transpose : Bool)
  | setRecord (path : Path) (v : Datum) (index : Nat)
  | writeRecords (path : Path) (values : List Datum)

namespace TypedWrite

def run : TypedWrite → Action Unit
  | appendScalar path e v => Archive.appendScalar path e v
  | appendVector path e values => Archive.appendVector path e values
  | appendMatrix path e m transpose => Archive.appendMatrix path e m transpose
  | appendMatrices path e matrices transpose => Archive.appendMatrices path e matrices transpose
  | setScalar path e v index => Archive.setScalar path e v index
  | setVector path e values index row => Archive.setVector path e values index row
  | setMatrix path e m index transpose => Archive.setMatrix path e m index transpose
  | setMatrices path e matrices index transpose =>
    Archive.setMatrices path e matrices index transpose
  | writeScalar path e v => Archive.writeScalar path e v
  | writeVector path e values => Archive.writeVector path e values
  | writeMatrix path e m transpose => Archive.writeMatrix path e m transpose
  | setRecord path v index => Archive.setRecord path v index
  | writeRecords path values => Archive.writeRecords path values

/-- A list of matrices is ragged if two of them differ in their extents. -/
def IsRagged : TypedWrite → Prop
  | appendMatrices _ _ matrices _ | setMatrices _ _ matrices _ _ =>
    ∃ m ∈ matrices, ∃ m' ∈ matrices, ¬(m.rows = m'.rows ∧ m.cols = m'.cols)
  | _ => False

theorem IsRagged.diskShape_eq {β : Type} {matrices : List (Matrix β)} {transpose : Bool}
    (same : ¬∃ m ∈ matrices, ∃ m' ∈ matrices, ¬(m.rows = m'.rows ∧ m.cols = m'.cols)) :
    ∀ m ∈ matrices, ∀ m' ∈ matrices, diskShape m transpose = diskShape m' transpose := by
  intro m mem m' mem'
  obtain ⟨rows, cols⟩ : m.rows = m'.rows ∧ m.cols = m'.cols := by
    by_contra apart
    exact same ⟨m, mem, m', mem', apart⟩
  simp [diskShape, rows, cols]

/-- A typed write that is refused, and not for the length of a record, leaves the archive as it was:
the log, every dataset's extents and every cell.  A ragged list of matrices is no such write. -/
theorem all_or_nothing (coherent : a.Coherent) {w : TypedWrite} (even : ¬w.IsRagged)
    {err : StorageError} (refused : w.run a = .error err a')
    (encodable : err.isUnencodable = false) : a' = a := by
  have whole : AllOrNothing w.run a := by
    cases w with
    | appendScalar path e v => exact allOrNothing_appendScalar coherent path e v
    | appendVector path e values => exact allOrNothing_appendVector coherent path e values
    | appendMatrix path e m transpose => exact allOrNothing_appendMatrix coherent path e m transpose
    | appendMatrices path e matrices transpose =>
      exact allOrNothing_appendMatrices coherent path e (IsRagged.diskShape_eq even)
    | setScalar path e v index =>
      exact allOrNothing_find coherent path _ 1 e fun id dims _ h => allOrNothing_put h.ready _ _ _
    | setVector path e values index row =>
      exact allOrNothing_setVector coherent path e values index row
    | setMatrix path e m index transpose =>
      exact allOrNothing_setMatrix coherent path e m index transpose
    | setMatrices path e matrices index transpose =>
      exact allOrNothing_setMatrices coherent path e index (IsRagged.diskShape_eq even)
    | writeScalar path e v =>
      exact allOrNothing_find coherent path _ 0 e fun id dims _ h => allOrNothing_put h.ready _ _ _
    | writeVector path e values => exact allOrNothing_writeVector coherent path e values
    | writeMatrix path e m transpose => exact allOrNothing_writeMatrix coherent path e m transpose
    | setRecord path v index => exact allOrNothing_putRecords coherent path _ _ _
    | writeRecords path values => exact allOrNothing_putRecords coherent path _ _ _
  exact (whole.bad_of_eq refused).resolve_left (by simp [encodable])

/-- Make a list of pairs of single reals, still without a row. -/
def makePairs : Mutation :=
  .createDataset (.ofText "/t") (.scalar .real) [0, 2, 1, 1] true 1 (.real .zero)

/-- A new archive with such a list. -/
def withPairs : Option Archive :=
  (openFile default {} default).result.toOption.map fun a =>
    { a with mounted := makePairs.after a.mounted }

theorem inUse_of_withPairs (h : withPairs = some a) : a.InUse := by
  obtain ⟨a₀, opened, rfl⟩ := Option.map_eq_some_iff.1 h
  exact .changed (.opened (eq_ok_of_toOption opened)) rfl

/-- The row that the matrices are for is missing, and that comes out when the first is put. -/
theorem all_or_nothing_of_missing_row : ∃ a a' err,
    a.Coherent ∧ withPairs = some a ∧
    ¬(setMatrices (.ofText "/t") .real [.filled 1 1 .nan, .filled 1 1 .zero] 3 false).IsRagged ∧
    (setMatrices (.ofText "/t") .real [.filled 1 1 .nan, .filled 1 1 .zero] 3 false).run a =
      .error err a' ∧ err.isUnencodable = false ∧ a' = a := by
  have ready : withPairs.any (fun a => (failure? ((setMatrices (.ofText "/t") .real
      [.filled 1 1 .nan, .filled 1 1 .zero] 3 false).run a)).any fun failed =>
        !failed.1.isUnencodable) := by decide +kernel
  obtain ⟨a, made, ready⟩ := (Option.any_eq_true ..).1 ready
  obtain ⟨⟨err, a'⟩, refused, encodable⟩ := (Option.any_eq_true ..).1 ready
  have even : ¬(setMatrices (.ofText "/t") .real
      [.filled 1 1 .nan, .filled 1 1 .zero] 3 false).IsRagged := by
    simp [IsRagged, Matrix.filled]
  replace refused := eq_error_of_failure? refused
  replace encodable : err.isUnencodable = false := by simpa using encodable
  have coherent := (inUse_of_withPairs made).coherent
  exact ⟨a, a', err, coherent, made, even, refused, encodable,
    all_or_nothing coherent even refused encodable⟩

/-- Where the second matrix is too high, the row for both stays behind. -/
theorem ragged_leaves_row : ∃ a a' err, withPairs = some a ∧ a.Coherent ∧
    (appendMatrices (.ofText "/t") .real [.filled 1 1 .nan, .filled 2 1 .zero] false).run a =
      .error err a' ∧ err.isUnencodable = false ∧
    (a.tree.at? (.ofText "/t")).map Dataset.dims = some [0, 2, 1, 1] ∧
    (a'.tree.at? (.ofText "/t")).map Dataset.dims = some [1, 2, 1, 1] := by
  have ready : withPairs.any (fun a => (failure? ((appendMatrices (.ofText "/t") .real
      [.filled 1 1 .nan, .filled 2 1 .zero] false).run a)).any fun failed =>
        !failed.1.isUnencodable &&
        (a.tree.at? (.ofText "/t")).map Dataset.dims = some [0, 2, 1, 1] &&
        (failed.2.tree.at? (.ofText "/t")).map Dataset.dims = some [1, 2, 1, 1]) := by
    decide +kernel
  obtain ⟨a, made, ready⟩ := (Option.any_eq_true ..).1 ready
  obtain ⟨⟨err, a'⟩, refused, ready⟩ := (Option.any_eq_true ..).1 ready
  simp only [Bool.and_eq_true, Bool.not_eq_true', decide_eq_true_eq] at ready
  obtain ⟨⟨encodable, before⟩, after⟩ := ready
  exact ⟨a, a', err, made, (inUse_of_withPairs made).coherent, eq_error_of_failure? refused,
    encodable, before, after⟩

end TypedWrite

end Archive
end StudyArchive
