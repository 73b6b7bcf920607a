import Mathlib.Data.List.ReduceOption
import StudyArchive.Evaluation.Store
import StudyArchive.Proofs.Archive.Rows
import StudyArchive.Proofs.Evaluation.EachPart
import StudyArchive.Proofs.Evaluation.Places
/-
# Appending inputs

If no drift is found, every part of the schema has equally many rows of its shape, and no other part
is there (`LaidOut.dims_of_drift`).  Then an evaluation's inputs give each part one row more
(`ends_appendInputs`); a step can only fail for a record without a frame.
-/

namespace StudyArchive

open EvaluationLayout
open Dataset (Appended Onward)

namespace Archive

variable {a : Archive} {p : Producer} {s : EvaluationSchema} {path root : Path}
  {part : EvaluationPart} {d : Dataset}

/-! ## Drift

The extents of the datasets against those of the schema: equal if and only if no drift is found. -/

theorem Sound.dims_eq_ok (sound : a.Sound) (found : a.at? path = some d) :
    a.dims path = .ok d.dims := by
  obtain ⟨id, looked, -, dataset⟩ := sound.lookup_eq_ok found "dims"
  simp only [dims, looked, bind, Except.bind, pure, Except.pure, dataset]

/-- The rows of a dataset with an axis can be counted. -/
theorem Sound.countRows_eq_ok (sound : a.Sound) (found : a.at? path = some d) {n : Nat}
    {tail : List Nat} (dims : d.dims = n :: tail) : a.countRows path = .ok n := by
  unfold countRows
  rw [sound.dims_eq_ok found, dims]
  rfl

theorem LaidOut.contains_eq (laid : a.LaidOut) (hr : IsProducerRoot root)
    (part : EvaluationPart) :
    a.contains (part.path root) = (a.at? (part.path root)).isSome := by
  unfold contains SortedMap.contains
  cases node : a.tree.nodes.get? (part.path root) with
  | none => rw [show a.at? (part.path root) = none from Tree.at?_of_absent node]; rfl
  | some n =>
    obtain ⟨d, found, -⟩ := laid.parts root hr part n node
    rw [found]
    rfl

/-- What the comparison finds at a place: the extents of what is there, if anything is. -/
def extentsFound (a : Archive) (path : Path) : Except StudyError (Option (List Nat)) :=
  if a.contains path then ((a.dims path).map some).mapError .storage else .ok none

/-- The comparison goes on if it finds what is expected. -/
theorem firstDrift_cons (a : Archive) (n : Nat) (path : Path) (row : Option (List Nat))
    (rest : List (Path × Option (List Nat))) :
    a.firstDrift n ((path, row) :: rest) = a.extentsFound path >>= fun found =>
      let expected := row.map (n :: ·)
      if found = expected then a.firstDrift n rest
      else .ok (some s!"{path} is {showShape found}, expected {showShape expected}") := by
  rw [firstDrift, extentsFound]
  split <;> rfl

/-- No drift is found exactly if everything expected is found. -/
theorem firstDrift_eq_none_iff {n : Nat} {rows : List (Path × Option (List Nat))} :
    a.firstDrift n rows = .ok none ↔
      ∀ row ∈ rows, a.extentsFound row.1 = .ok (row.2.map (n :: ·)) := by
  induction rows with
  | nil => simp [firstDrift]
  | cons first rows ih =>
    rw [firstDrift_cons, List.forall_mem_cons, ← ih]
    cases a.extentsFound first.1 with
    | error e => simp [bind, Except.bind]
    | ok found =>
      by_cases same : found = first.2.map (n :: ·) <;> simp [bind, Except.bind, same]

theorem LaidOut.extentsFound_eq (laid : a.LaidOut) (hr : IsProducerRoot root)
    (part : EvaluationPart) :
    a.extentsFound (part.path root) = .ok ((a.at? (part.path root)).map Dataset.dims) := by
  rw [extentsFound, laid.contains_eq hr part]
  cases found : a.at? (part.path root) with
  | none => rfl
  | some d =>
    rw [laid.sound.dims_eq_ok found]
    rfl

/-- No drift is found exactly if the datasets have the expected extents. -/
theorem LaidOut.firstDrift_eq_none_iff (laid : a.LaidOut) (hr : IsProducerRoot root) {n : Nat}
    {parts : List EvaluationPart} :
    a.firstDrift n (parts.map fun part => (part.path root, part.shape? s)) = .ok none ↔
      ∀ part ∈ parts,
        (a.at? (part.path root)).map Dataset.dims = (part.shape? s).map (n :: ·) := by
  rw [Archive.firstDrift_eq_none_iff, List.forall_mem_map]
  simp only [laid.extentsFound_eq hr, Except.ok.injEq]

/-- Where rows can be counted, there is a column of them. -/
theorem LaidOut.dims_of_countRows (laid : a.LaidOut) (hr : IsProducerRoot root) {n : Nat}
    (h : a.countRows (EvaluationPart.ids.path root) = .ok n) :
    (a.at? (EvaluationPart.ids.path root)).map Dataset.dims = some [n] := by
  unfold countRows at h
  obtain ⟨dims, found, h⟩ := exists_of_bind_eq_ok h
  have direct : ¬IsLinkPlace (EvaluationPart.ids.path root) :=
    not_isLinkPlace_of_scales (EvaluationPart.segments_path root .ids)
  obtain ⟨id, looked, -⟩ := exists_of_bind_eq_ok (eq_ok_of_mapError found)
  obtain ⟨d, here, fits⟩ := laid.parts root hr .ids _ (laid.node_of_lookup direct looked)
  rw [laid.sound.dims_eq_ok here] at found
  cases found
  have column := fits.column rfl
  rw [here]
  split at h
  · next rows tail eq =>
    cases h
    rw [Option.map_some, eq, ← column, eq, List.tail_cons]
  · cases h

/-- If no drift is found, every part of the schema has equally many rows of its shape, and no other
part is there. -/
theorem LaidOut.dims_of_drift (laid : a.LaidOut) (hr : IsProducerRoot p.root)
    (four : s.variableCounts.length = 4) (h : a.evaluationDrift (ofSchema p s) s = .ok none) :
    ∃ n, a.countRows (ofSchema p s).ids = .ok n ∧ ∀ part : EvaluationPart,
      (a.at? (part.path p.root)).map Dataset.dims = (part.shape? s).map (n :: ·) := by
  obtain ⟨n, counted, none⟩ := exists_of_bind_eq_ok h
  rw [EvaluationPart.rowShapes_ofSchema p four] at none
  refine ⟨n, counted, fun part => ?_⟩
  by_cases ids : part = .ids
  · subst ids
    exact laid.dims_of_countRows hr counted
  · exact (laid.firstDrift_eq_none_iff hr).1 none part (EvaluationPart.mem_checked ids)

theorem LaidOut.isTable (laid : a.LaidOut) (hr : IsProducerRoot root)
    (found : a.at? (part.path root) = some d) {n : Nat} {shape : List Nat}
    (dims : d.dims = n :: shape) : d.IsTable part.element shape := by
  have fits := laid.fits hr found
  have rows : d.rows = n := by simp [Dataset.rows, dims]
  exact ⟨fits.extensible, fits.type, by rw [rows, dims]⟩

end Archive

/-! ## The inputs of an evaluation

The rows are computed from the inputs beforehand, so that appending them is one step for each
part. -/

structure EvaluationInputs where
  id : UInt64
  active : ActiveSet
  values : Variables
  deriving DecidableEq

/-- Inputs that a schema does not drift from, with derivative variables in order. -/
structure EvaluationInputs.Fit (x : EvaluationInputs) (s : EvaluationSchema) : Prop where
  functions : x.active.length = s.functions
  counts : x.values.counts = s.variableCounts
  ascending : strictlyAscending x.active.derivatives = true

theorem EvaluationInputs.fit_of_checks {s : EvaluationSchema} {x : EvaluationInputs}
    (h : s.inputDrift? x.active x.values = none)
    (ascending : strictlyAscending x.active.derivatives = true) : x.Fit s := by
  unfold EvaluationSchema.inputDrift? at h
  split at h
  · cases h
  · next functions =>
    split at h
    · cases h
    · next counts => exact ⟨not_not.1 functions, not_not.1 counts, ascending⟩

namespace EvaluationPart

variable (root : Path) (s : EvaluationSchema) (x : EvaluationInputs)

/-- What the inputs of an evaluation put into the row of each part; the parts that its response goes
into are left at the fill. -/
def inputRow : EvaluationPart → List Datum
  | ids => [ElementType.uint64.toDatum x.id]
  | continuous => x.values.continuous.values.map ElementType.real.toDatum
  | integers => x.values.integers.values.map ElementType.int64.toDatum
  | texts => x.values.texts.values.map ElementType.text.toDatum
  | reals => x.values.reals.values.map ElementType.real.toDatum
  | requests => (x.active.request.map fun r => Int32.ofNat r.toNat).map ElementType.int32.toDatum
  | derivatives =>
    (s.derivatives.map fun v => if v ∈ x.active.derivatives then (1 : Int32) else 0).map
      ElementType.int32.toDatum
  | part => List.replicate (volume ((part.shape? s).getD [])) part.fill

/-- Append a row to a part that is there. -/
def appendRow : EvaluationPart → Archive.Action Unit
  | ids => Archive.appendScalar (ids.path root) .uint64 x.id
  | continuous =>
    Archive.appendVector (continuous.path root) .real x.values.continuous.values
  | integers => Archive.appendVector (integers.path root) .int64 x.values.integers.values
  | texts => Archive.appendVector (texts.path root) .text x.values.texts.values
  | reals => Archive.appendVector (reals.path root) .real x.values.reals.values
  | requests =>
    Archive.appendVector (requests.path root) .int32
      (x.active.request.map fun r => Int32.ofNat r.toNat)
  | derivatives =>
    Archive.appendVector (derivatives.path root) .int32 (s.flags x.active.derivatives)
  | part => do let _ ← Archive.reserveRow (part.path root)

/-- Append a row to a part, if the schema has it. -/
def appendPart (part : EvaluationPart) : Archive.Action Unit :=
  match part.shape? s with
  | some _ => part.appendRow root s x
  | none => pure ()

/-- The parts in the order in which rows are appended. -/
def appended : List EvaluationPart :=
  [ids, continuous, integers, texts, reals, requests, functions, derivatives, gradients, hessians,
    metadata]

theorem mem_appended (part : EvaluationPart) : part ∈ appended := by cases part <;> decide

theorem nodup_appended : appended.Nodup := by decide

variable {s x}

theorem appendBlock_eq (path : Path) {e : ElementType} (values : List e.Value) :
    Recording.appendBlock path e values =
      match rowOf values.length with
      | some _ => Archive.appendVector path e values
      | none => pure () := by
  unfold Recording.appendBlock
  cases values <;> rfl

/-- Reserving rows of the optional parts for a response. -/
theorem reserveRows_eq (p : Producer) :
    (do for path in [(ofSchema p s).gradients, (ofSchema p s).hessians,
            (ofSchema p s).metadata].reduceOption do
          let _ ← Archive.reserveRow path) =
      [gradients, hessians, metadata].forM (appendPart p.root s x) := by
  rw [gradients_ofSchema, hessians_ofSchema, metadata_ofSchema]
  show _ = (do
    gradients.appendPart p.root s x
    hessians.appendPart p.root s x
    metadata.appendPart p.root s x
    pure ())
  unfold appendPart
  cases gradients.shape? s <;> cases hessians.shape? s <;> cases metadata.shape? s <;>
    simp [appendRow]

theorem appendInputs_eq (p : Producer) (fit : x.Fit s) :
    Recording.appendInputs (ofSchema p s) s x.id x.active x.values =
      appended.forM (appendPart p.root s x) := by
  have block (part : EvaluationPart) (e : ElementType) (values : List e.Value)
      (shape : part.shape? s = rowOf values.length)
      (step : part.appendRow p.root s x = Archive.appendVector (part.path p.root) e values) :
      Recording.appendBlock (part.path p.root) e values = part.appendPart p.root s x := by
    rw [appendBlock_eq, appendPart, shape, step]
  have continuous : Recording.appendBlock (ofSchema p s).continuous .real _ = _ :=
    block .continuous .real x.values.continuous.values (by rw [shape?, ← fit.counts]; rfl) rfl
  have integers : Recording.appendBlock (ofSchema p s).integers .int64 _ = _ :=
    block .integers .int64 x.values.integers.values (by rw [shape?, ← fit.counts]; rfl) rfl
  have texts : Recording.appendBlock (ofSchema p s).texts .text _ = _ :=
    block .texts .text x.values.texts.values (by rw [shape?, ← fit.counts]; rfl) rfl
  have reals : Recording.appendBlock (ofSchema p s).reals .real _ = _ :=
    block .reals .real x.values.reals.values (by rw [shape?, ← fit.counts]; rfl) rfl
  have last := reserveRows_eq (s := s) (x := x) p
  unfold Recording.appendInputs
  rw [continuous, integers, texts, reals, derivatives_ofSchema]
  simp only [bind_pure_comp, id_map'] at last ⊢
  rw [last]
  show _ = (do
    Archive.appendScalar (ofSchema p s).ids .uint64 x.id
    EvaluationPart.continuous.appendPart p.root s x
    EvaluationPart.integers.appendPart p.root s x
    EvaluationPart.texts.appendPart p.root s x
    EvaluationPart.reals.appendPart p.root s x
    requests.appendPart p.root s x
    functions.appendPart p.root s x
    derivatives.appendPart p.root s x
    [gradients, hessians, metadata].forM (appendPart p.root s x))
  refine bind_congr fun _ => bind_congr fun _ => bind_congr fun _ => bind_congr fun _ =>
    bind_congr fun _ => ?_
  have requests_shape : requests.shape? s = rowOf s.functions := rfl
  have functions_shape : functions.shape? s = rowOf s.functions := rfl
  rw [appendPart, appendPart, appendPart, requests_shape, functions_shape, rowOf]
  by_cases none : s.functions = 0 <;> cases derivatives.shape? s <;>
    simp [none, appendRow, ofSchema, path]

variable {root} {a : Archive} {part : EvaluationPart} {d : Dataset} {row : List Nat}

/-- Whether a part's row is left at the fill until the response comes. -/
def isReserved : EvaluationPart → Bool
  | functions | gradients | hessians | metadata => true
  | _ => false

/-- What a part's row holds once the inputs are stored. -/
def newRow (part : EvaluationPart) (s : EvaluationSchema) (x : EvaluationInputs) (d : Dataset) :
    List Datum :=
  if part.isReserved then List.replicate (volume d.dims.tail) d.fill else part.inputRow s x

/-- Appending the row of a part to the dataset that its place denotes: only a record without a frame
fails.  What is appended to typed must hold elements of the part's type. -/
theorem ends_appendRow_denoted {id : DatasetId} (coherent : a.Coherent) (fit : x.Fit s)
    (shape : part.shape? s = some row) (denotes : a.tree.denoted? (part.path root) = some id)
    (here : a.tree.datasets[id]? = some d) (extensible : d.extensible = true)
    (type : part.isReserved = false → d.type = .scalar part.element)
    (dims : d.dims = d.rows :: row) :
    Ends (part.appendRow root s x) a
      (fun _ => Archive.RowAt a (part.path root) id d (part.newRow s x d))
      (fun e a' => e.isUnencodable ∧
        ∃ d', Onward d d' ∧ Archive.Altered a (part.path root) id d' a') := by
  have counts := fit.counts
  have table (typed : part.isReserved = false) : d.IsTable part.element row :=
    ⟨extensible, type typed, dims⟩
  cases part with
  | ids =>
    obtain rfl : [] = row := Option.some.inj shape
    exact Archive.ends_appendScalar_denoted coherent denotes here (table rfl) x.id
  | continuous | integers | texts | reals =>
    rw [shape?, ← counts] at shape
    obtain rfl := eq_of_rowOf shape
    exact Archive.ends_appendVector_denoted coherent denotes here (table rfl)
  | requests =>
    obtain rfl := eq_of_rowOf shape
    rw [← fit.functions, ActiveSet.length,
      ← List.length_map (f := fun r : UInt8 => Int32.ofNat r.toNat)] at table
    exact Archive.ends_appendVector_denoted coherent denotes here (table rfl)
  | derivatives =>
    rw [shape?] at shape
    split at shape
    · cases shape
      have length : s.derivatives.length = (s.flags x.active.derivatives).length :=
        (List.length_map ..).symm
      rw [length] at table
      have appended := Archive.ends_appendVector_denoted coherent denotes here (table rfl)
      rw [EvaluationSchema.flags_eq_map fit.ascending] at appended
      rw [appendRow, EvaluationSchema.flags_eq_map fit.ascending]
      exact appended
    · cases shape
  | functions | gradients | hessians | metadata =>
    refine ends_bind.2 ((Archive.ends_reserveRow_denoted coherent denotes here extensible).mono
      ?_ fun _ _ bad => bad)
    exact fun _ _ added => ends_pure.2 added

/-- Appending the row of a part: only a record without a frame fails. -/
theorem ends_appendRow (sound : a.Sound) (fit : x.Fit s) (shape : part.shape? s = some row)
    (found : a.at? (part.path root) = some d) (table : d.IsTable part.element row)
    (fill : d.fill = part.fill) :
    Ends (part.appendRow root s x) a
      (fun _ => Archive.RowAdded a (part.path root) d (part.inputRow s x))
      (fun e a' => e.isUnencodable ∧
        ∃ d', Onward d d' ∧ Archive.Turned a (part.path root) d' a') := by
  have same : part.newRow s x d = part.inputRow s x := by
    have reserved : List.replicate (volume d.dims.tail) d.fill =
        List.replicate (volume ((part.shape? s).getD [])) part.fill := by
      rw [shape, table.tail_eq, fill]
      rfl
    unfold newRow
    split
    · rw [reserved]
      cases part <;> first | rfl | contradiction
    · rfl
  refine Archive.ends_of_rowAt sound found fun id denotes here => ?_
  rw [← same]
  exact ends_appendRow_denoted sound.coherent fit shape denotes here table.extensible
    (fun _ => table.type) table.dims

end EvaluationPart

/-- On the way of appending inputs, the parts before one of them have their row, this one has it or
has the fill in its place, and the parts after it are as they were. -/
def Archive.InputsSoFar (root : Path) (s : EvaluationSchema) (x : EvaluationInputs) :
    Archive → Archive → Prop :=
  Halfway root EvaluationPart.appended (fun part d => Filling d (part.inputRow s x))
    fun part d d' => Appended d (part.inputRow s x) d'

/-- The inputs of an evaluation give each part of its producer one row more. -/
theorem Archive.ends_appendInputs {a : Archive} {p : Producer} {s : EvaluationSchema}
    {x : EvaluationInputs} (laid : a.LaidOut) (hr : IsProducerRoot p.root) (fit : x.Fit s) {n : Nat}
    (dims : ∀ part : EvaluationPart,
      (a.at? (part.path p.root)).map Dataset.dims = (part.shape? s).map (n :: ·)) :
    Ends (Recording.appendInputs (ofSchema p s) s x.id x.active x.values) a
      (fun _ a' => Reworked p.root (fun part d d' => Appended d (part.inputRow s x) d') a a' ∧
        Passes (InputsSoFar p.root s x a) a a')
      (fun e a' => e.isUnencodable ∧ Reworked p.root (fun _ => Onward) a a') := by
  rw [EvaluationPart.appendInputs_eq p fit]
  have loop := ends_forM_parts (fun part d => Filling d (part.inputRow s x))
    (fun part d d' => Appended d (part.inputRow s x) d') (fun _ => Onward)
    laid.sound hr EvaluationPart.nodup_appended (fun _ => Onward.refl)
    (fun _ _ _ appended => appended.onward)
    (f := EvaluationPart.appendPart p.root s x) ?_ ?_
  · refine loop.mono (fun _ a' each => ⟨each.reworked.mono fun part d d' changed => ?_, each.way⟩)
      fun _ _ bad => bad
    rwa [if_pos part.mem_appended] at changed
  · intro part _ absent
    have shape := dims part
    rw [absent] at shape
    rw [EvaluationPart.appendPart, Option.map_eq_none_iff.1 shape.symm]
  · intro part _ d found a₁ sound here
    have shape := dims part
    rw [found] at shape
    obtain ⟨row, shape, eq⟩ := Option.map_eq_some_iff.1 shape.symm
    rw [EvaluationPart.appendPart, shape]
    exact EvaluationPart.ends_appendRow sound fit shape here (laid.isTable hr found eq.symm)
      (laid.fits hr found).fill

end StudyArchive
