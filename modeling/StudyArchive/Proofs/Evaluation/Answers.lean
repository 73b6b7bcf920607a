import StudyArchive.Evaluation.Store
import StudyArchive.Proofs.Archive.Matrices
import StudyArchive.Proofs.Evaluation.EachPart
import StudyArchive.Proofs.Evaluation.Places
/-
# Writing responses

What the row of each part holds once a response was written into it is said entry by entry
(`EvaluationPart.Answers`): a value, a derivative by the variables of the schema, or NaN where
nothing was asked for or the response has no such variable.  Writing a response brings that about,
and touches nothing but the one row of the parts that responses go into (`ends_writeResponse`).
-/

namespace StudyArchive

open EvaluationLayout
open Dataset (Touched)

/-! ## What is to be stored

One predicate for the row of each part.  Indices of derivatives are those of the schema, and the
response may have its own in another order. -/

namespace Response

variable (r : Response) (s : EvaluationSchema) (cell : List Nat → Datum)

/-- The values of the functions, NaN where none was asked for. -/
def FillsValues : Prop :=
  ∀ i < s.functions, ∃ v, r.values[i]? = some v ∧
    cell [i] = .real (if r.active.asksValue i then v else .nan)

/-- The gradients of the functions that have a row, each entry under its own variable. -/
def FillsGradients : Prop :=
  ∀ k f p v, s.gradientIndices[k]? = some f → s.derivatives[p]? = some v →
    (∀ j, r.active.asksGradient f → r.active.derivatives[j]? = some v →
      ∃ x, r.gradients.get? j f = some x ∧ cell [k, p] = .real x) ∧
    (¬(r.active.asksGradient f ∧ v ∈ r.active.derivatives) → cell [k, p] = .real .nan)

/-- The Hessians of the functions that have a row, each entry under its own two variables. -/
def FillsHessians : Prop :=
  ∀ k f p v q w, s.hessianIndices[k]? = some f → s.derivatives[p]? = some v →
    s.derivatives[q]? = some w →
      (∀ a b, r.active.asksHessian f → r.active.derivatives[a]? = some v →
        r.active.derivatives[b]? = some w →
          ∃ m x, r.hessians[f]? = some m ∧ m.get? a b = some x ∧ cell [k, p, q] = .real x) ∧
      (¬(r.active.asksHessian f ∧ v ∈ r.active.derivatives ∧ w ∈ r.active.derivatives) →
        cell [k, p, q] = .real .nan)

/-- The metadata, NaN if there are none. -/
def FillsMetadata : Prop :=
  ∀ i < s.metadata, (r.metadata = [] → cell [i] = .real .nan) ∧
    (r.metadata ≠ [] → ∃ v, r.metadata[i]? = some v ∧ cell [i] = .real v)

end Response

namespace EvaluationPart

/-- The parts that responses go into. -/
def answered : List EvaluationPart := [functions, gradients, hessians, metadata]

theorem nodup_answered : answered.Nodup := by decide

/-- A row of a part holds what a response has for it. -/
def Answers (s : EvaluationSchema) (r : Response) : EvaluationPart → (List Nat → Datum) → Prop
  | functions => r.FillsValues s
  | gradients => r.FillsGradients s
  | hessians => r.FillsHessians s
  | metadata => r.FillsMetadata s
  | _ => fun _ => True

/-- Nothing is asked of the parts that responses do not go into. -/
theorem answers_of_not_mem {part : EvaluationPart} {s : EvaluationSchema} {r : Response}
    {cell : List Nat → Datum} (out : part ∉ answered) : part.Answers s r cell := by
  cases part with
  | functions | gradients | hessians | metadata => exact absurd (by decide) out
  | _ => trivial

/-- What a row of a part holds is a matter of the cells within its extents. -/
theorem Answers.congr {part : EvaluationPart} {s : EvaluationSchema} {r : Response}
    {shape : List Nat} {cell cell' : List Nat → Datum} (h : part.Answers s r cell)
    (has : part.shape? s = some shape)
    (same : ∀ index, Inside shape index → cell' index = cell index) :
    part.Answers s r cell' := by
  have low {α : Type} {l : List α} {i : Nat} {v : α} (at_ : l[i]? = some v) : i < l.length :=
    (List.getElem?_eq_some_iff.1 at_).1
  cases part with
  | functions =>
    obtain rfl := eq_of_rowOf has
    intro i hi
    rw [same [i] (.cons hi .nil)]
    exact h i hi
  | gradients =>
    cases (Option.ite_none_right_eq_some.1 has).2
    intro k f p v hk hp
    rw [same [k, p] (.cons (low hk) (.cons (low hp) .nil))]
    exact h k f p v hk hp
  | hessians =>
    cases (Option.ite_none_right_eq_some.1 has).2
    intro k f p v q w hk hp hq
    rw [same [k, p, q] (.cons (low hk) (.cons (low hp) (.cons (low hq) .nil)))]
    exact h k f p v q w hk hp hq
  | metadata =>
    obtain rfl := eq_of_rowOf has
    intro i hi
    rw [same [i] (.cons hi .nil)]
    exact h i hi
  | _ => trivial

end EvaluationPart

/-! ## Responses that fit -/

/-- A response that does not drift from a schema and has derivatives of the shapes that its
variables give. -/
structure Response.Fit (r : Response) (s : EvaluationSchema) : Prop where
  functions : r.functions = s.functions
  metadata : r.metadata ≠ [] → r.metadata.length = s.metadata
  ascending : strictlyAscending r.active.derivatives = true
  gradients : ∀ i ∈ s.gradientIndices, r.active.asksGradient i →
    r.gradients.rows = r.active.derivatives.length ∧ i < r.gradients.cols
  hessians : ∀ i ∈ s.hessianIndices, r.active.asksHessian i → ∃ m, r.hessians[i]? = some m ∧
    m.rows = r.active.derivatives.length ∧ m.cols = r.active.derivatives.length

namespace Recording

variable {l : EvaluationLayout} {r : Response} {indices : List Nat}

theorem gradients_of_check (h : checkGradients l r indices = .ok ()) :
    ∀ i ∈ indices, r.active.asksGradient i →
      r.gradients.rows = r.active.derivatives.length ∧ i < r.gradients.cols := by
  induction indices with
  | nil => simp
  | cons i rest ih =>
    rw [checkGradients] at h
    split at h
    · cases h
    · next fits =>
      intro j mem asked
      rcases List.mem_cons.1 mem with rfl | mem
      · by_contra no
        refine fits ⟨asked, ?_⟩
        omega
      · exact ih h j mem asked

theorem hessians_of_check (h : checkHessians l r indices = .ok ()) :
    ∀ i ∈ indices, r.active.asksHessian i → ∃ m, r.hessians[i]? = some m ∧
      m.rows = r.active.derivatives.length ∧ m.cols = r.active.derivatives.length := by
  induction indices with
  | nil => simp
  | cons i rest ih =>
    rw [checkHessians] at h
    split at h
    · cases h
    · next fits =>
      intro j mem asked
      rcases List.mem_cons.1 mem with rfl | mem
      · have found := not_not.1 fun no => fits ⟨asked, no⟩
        obtain ⟨m, here, shape⟩ := Option.map_eq_some_iff.1 found
        exact ⟨m, here, congrArg Prod.fst shape, congrArg Prod.snd shape⟩
      · exact ih h j mem asked

/-! ## Entries

The places of the schema's variables among those of the response decide which entry goes where. -/

variable {s : EvaluationSchema} {k f p q u w : Nat}

theorem get?_gradientRows (hk : s.gradientIndices[k]? = some f) (hp : s.derivatives[p]? = some u) :
    (gradientRows s r).get? p k = some (if r.active.asksGradient f then
      ((s.places r.active.derivatives).findIdx? (· = some p) >>= fun j =>
        r.gradient? f >>= fun column => column[j]?).getD .nan else .nan) := by
  obtain ⟨low, rfl⟩ := List.getElem?_eq_some_iff.1 hk
  exact Matrix.get?_ofFn (List.getElem?_eq_some_iff.1 hp).1 low

theorem get?_hessianOf (hp : s.derivatives[p]? = some u) (hq : s.derivatives[q]? = some w) :
    (hessianOf s r f).get? p q = some (if r.active.asksHessian f then
      ((s.places r.active.derivatives).findIdx? (· = some p) >>= fun a =>
        (s.places r.active.derivatives).findIdx? (· = some q) >>= fun b =>
          r.hessians[f]? >>= fun m => m.get? a b).getD .nan else .nan) :=
  Matrix.get?_ofFn (List.getElem?_eq_some_iff.1 hp).1 (List.getElem?_eq_some_iff.1 hq).1

/-- Where a gradient was not asked for, or the response has no such variable, there is NaN. -/
theorem gradientRows_missing (known : strictlyAscending s.derivatives = true) (fit : r.Fit s)
    (hk : s.gradientIndices[k]? = some f) (hp : s.derivatives[p]? = some u)
    (missing : ¬(r.active.asksGradient f ∧ u ∈ r.active.derivatives)) :
    (gradientRows s r).get? p k = some .nan := by
  rw [get?_gradientRows hk hp]
  split
  · next asked =>
    rw [EvaluationSchema.findIdx?_places_eq_none known fit.ascending hp fun mem =>
      missing ⟨asked, mem⟩]
    rfl
  · rfl

/-- An entry of a gradient that was asked for lies under its own variable. -/
theorem gradientRows_found (known : strictlyAscending s.derivatives = true) (fit : r.Fit s)
    (hk : s.gradientIndices[k]? = some f) (hp : s.derivatives[p]? = some u)
    (asked : r.active.asksGradient f) {j : Nat} (hj : r.active.derivatives[j]? = some u) :
    ∃ x, r.gradients.get? j f = some x ∧ (gradientRows s r).get? p k = some x := by
  obtain ⟨rows, cols⟩ := fit.gradients f (List.mem_of_getElem? hk) asked
  obtain ⟨x, entry⟩ := Matrix.exists_get? (m := r.gradients)
    (rows ▸ (List.getElem?_eq_some_iff.1 hj).1) cols
  refine ⟨x, entry, ?_⟩
  have place := (EvaluationSchema.findIdx?_places known fit.ascending).2 ⟨u, hp, hj⟩
  have column : r.gradient? f = some (r.gradients.column ⟨f, cols⟩) := dif_pos cols
  rw [get?_gradientRows hk hp, if_pos asked, place, column]
  simp only [Option.bind_eq_bind, Option.bind_some, Matrix.getElem?_column, entry,
    Option.getD_some]

/-- Where a Hessian was not asked for, or the response has no such variables, there is NaN. -/
theorem hessianOf_missing (known : strictlyAscending s.derivatives = true) (fit : r.Fit s)
    (hp : s.derivatives[p]? = some u) (hq : s.derivatives[q]? = some w)
    (missing : ¬(r.active.asksHessian f ∧ u ∈ r.active.derivatives ∧ w ∈ r.active.derivatives)) :
    (hessianOf s r f).get? p q = some .nan := by
  rw [get?_hessianOf hp hq]
  split
  · next asked =>
    by_cases first : u ∈ r.active.derivatives
    · have second : w ∉ r.active.derivatives := fun mem => missing ⟨asked, first, mem⟩
      rw [EvaluationSchema.findIdx?_places_eq_none known fit.ascending hq second]
      cases (s.places r.active.derivatives).findIdx? (· = some p) <;> rfl
    · rw [EvaluationSchema.findIdx?_places_eq_none known fit.ascending hp first]
      rfl
  · rfl

/-- An entry of a Hessian that was asked for lies under its own two variables. -/
theorem hessianOf_found (known : strictlyAscending s.derivatives = true) (fit : r.Fit s)
    (mem : f ∈ s.hessianIndices) (hp : s.derivatives[p]? = some u)
    (hq : s.derivatives[q]? = some w) (asked : r.active.asksHessian f) {a b : Nat}
    (ha : r.active.derivatives[a]? = some u) (hb : r.active.derivatives[b]? = some w) :
    ∃ m x, r.hessians[f]? = some m ∧ m.get? a b = some x ∧
      (hessianOf s r f).get? p q = some x := by
  obtain ⟨m, here, rows, cols⟩ := fit.hessians f mem asked
  obtain ⟨x, entry⟩ := Matrix.exists_get? (m := m)
    (rows ▸ (List.getElem?_eq_some_iff.1 ha).1) (cols ▸ (List.getElem?_eq_some_iff.1 hb).1)
  refine ⟨m, x, here, entry, ?_⟩
  have first := (EvaluationSchema.findIdx?_places known fit.ascending).2 ⟨u, hp, ha⟩
  have second := (EvaluationSchema.findIdx?_places known fit.ascending).2 ⟨w, hq, hb⟩
  rw [get?_hessianOf hp hq, if_pos asked, first, second, here]
  simp only [Option.bind_eq_bind, Option.bind_some, entry, Option.getD_some]

end Recording

/-- A response that passes all checks fits. -/
theorem Response.fit_of_checks {l : EvaluationLayout} {s : EvaluationSchema} {r : Response}
    (drift : s.responseDrift? r = none)
    (ascending : strictlyAscending r.active.derivatives = true)
    (gradients : Recording.checkGradients l r s.gradientIndices = .ok ())
    (hessians : Recording.checkHessians l r s.hessianIndices = .ok ()) : r.Fit s := by
  unfold EvaluationSchema.responseDrift? at drift
  split at drift
  · cases drift
  · next functions =>
    split at drift
    · cases drift
    · next metadata =>
      refine ⟨not_not.1 functions, fun some_ => ?_, ascending,
        Recording.gradients_of_check gradients, Recording.hessians_of_check hessians⟩
      exact not_not.1 fun differ => metadata ⟨some_, differ⟩

/-! ## Writing -/

namespace EvaluationPart

variable (root : Path) (s : EvaluationSchema) (r : Response) (i : Nat)

/-- Write what a response has for a part into a row of it. -/
def answerRow : EvaluationPart → Archive.Action Unit
  | functions => Archive.setVector (functions.path root) .real (Recording.functionRow r) i true
  | gradients =>
    if s.gradientIndices.any r.active.asksGradient then
      Archive.setMatrix (gradients.path root) .real (Recording.gradientRows s r) i true
    else pure ()
  | hessians =>
    if s.hessianIndices.any r.active.asksHessian then
      Archive.setMatrices (hessians.path root) .real
        (s.hessianIndices.map (Recording.hessianOf s r)) i false
    else pure ()
  | metadata =>
    if r.metadata = [] then pure ()
    else Archive.setVector (metadata.path root) .real r.metadata i true
  | _ => pure ()

/-- Write a response into a row of a part, if the schema has it. -/
def answerPart (part : EvaluationPart) : Archive.Action Unit :=
  match part.shape? s with
  | some _ => part.answerRow root s r i
  | none => pure ()

variable {s r i}

theorem writeResponse_eq (p : Producer) :
    Recording.writeResponse (ofSchema p s) s r i = answered.forM (answerPart p.root s r i) := by
  have functions_shape : functions.shape? s = rowOf s.functions := rfl
  show _ = (do
    functions.answerPart p.root s r i
    gradients.answerPart p.root s r i
    hessians.answerPart p.root s r i
    metadata.answerPart p.root s r i
    pure ())
  unfold Recording.writeResponse answerPart
  rw [gradients_ofSchema, hessians_ofSchema, metadata_ofSchema, functions_shape, rowOf]
  simp only [answerRow]
  cases s.gradientIndices.any r.active.asksGradient <;>
    cases s.hessianIndices.any r.active.asksHessian <;> by_cases none : s.functions = 0 <;>
    cases gradients.shape? s <;> cases hessians.shape? s <;> cases metadata.shape? s <;>
    simp [none, ofSchema, path]

/-- A row of a part became what a response has for it. -/
structure Answered (part : EvaluationPart) (s : EvaluationSchema) (r : Response) (i : Nat)
    (d d' : Dataset) : Prop where
  touched : Touched d i d'
  answers : part.Answers s r fun index => d'.cell (i :: index)

section
variable {d d' : Dataset} {n : Nat}

theorem fillsValues_of_row (fit : r.Fit s) (dims : d.dims = n :: [s.functions])
    (row : d.row i = (Recording.functionRow r).map .real) :
    r.FillsValues s fun index => d.cell (i :: index) := by
  intro j hj
  have values : j < r.values.length := by
    rw [← fit.functions] at hj
    exact hj
  refine ⟨r.values[j], List.getElem?_eq_getElem values, ?_⟩
  refine Dataset.cell_of_row dims row (.cons hj .nil) ?_
  simp [Selection.rowMajor, volume, Recording.functionRow, values]

theorem fillsGradients_of_row (known : strictlyAscending s.derivatives = true) (fit : r.Fit s)
    (dims : d.dims = n :: [s.gradientIndices.length, s.derivatives.length])
    (row : d.row i = (Recording.gradientRows s r).toColumnMajor.map .real) :
    r.FillsGradients s fun index => d.cell (i :: index) := by
  have cell {k p : Nat} {x : Binary64} (h : (Recording.gradientRows s r).get? p k = some x) :
      d.cell (i :: [k, p]) = .real x := by
    obtain ⟨wide, low⟩ := Matrix.lt_of_get? h
    refine Dataset.cell_of_row dims row (.cons low (.cons wide .nil)) ?_
    have place : Selection.rowMajor [s.gradientIndices.length, s.derivatives.length] [k, p] =
        k * (Recording.gradientRows s r).rows + p := by
      simp [Selection.rowMajor, volume, Recording.gradientRows, Matrix.ofFn]
    rw [place, List.getElem?_map, Matrix.getElem?_toColumnMajor h]
    rfl
  intro k f p u hk hp
  refine ⟨fun j asked hj => ?_, fun missing => ?_⟩
  · obtain ⟨x, entry, here⟩ := Recording.gradientRows_found known fit hk hp asked hj
    exact ⟨x, entry, cell here⟩
  · exact cell (Recording.gradientRows_missing known fit hk hp missing)

theorem fillsHessians_of_entries (known : strictlyAscending s.derivatives = true) (fit : r.Fit s)
    (entries : ∀ k m p q x, (s.hessianIndices.map (Recording.hessianOf s r))[k]? = some m →
      m.get? p q = some x → d.cell [i, k, p, q] = .real x) :
    r.FillsHessians s fun index => d.cell (i :: index) := by
  intro k f p u q w hk hp hq
  have here : (s.hessianIndices.map (Recording.hessianOf s r))[k]? =
      some (Recording.hessianOf s r f) := by rw [List.getElem?_map, hk]; rfl
  refine ⟨fun a b asked ha hb => ?_, fun missing => ?_⟩
  · obtain ⟨m, x, at_, entry, found⟩ := Recording.hessianOf_found known fit
      (List.mem_of_getElem? hk) hp hq asked ha hb
    exact ⟨m, x, at_, entry, entries k _ p q x here found⟩
  · exact entries k _ p q _ here (Recording.hessianOf_missing known fit hp hq missing)

theorem fillsMetadata_of_row (length : r.metadata.length = s.metadata)
    (dims : d.dims = n :: [s.metadata])
    (row : d.row i = r.metadata.map .real) :
    r.FillsMetadata s fun index => d.cell (i :: index) := by
  intro j hj
  have some_ : j < r.metadata.length := length ▸ hj
  refine ⟨fun none => ?_, fun _ => ⟨r.metadata[j], List.getElem?_eq_getElem some_, ?_⟩⟩
  · rw [none] at some_
    cases some_
  · refine Dataset.cell_of_row dims row (.cons hj .nil) ?_
    simp [Selection.rowMajor, volume, some_]

end

/-! Where nothing is asked for, a row of NaN is what a response has. -/

section
variable {cell : List Nat → Datum}

theorem fillsGradients_of_nan (none : ¬s.gradientIndices.any r.active.asksGradient)
    (nan : ∀ index, Inside [s.gradientIndices.length, s.derivatives.length] index →
      cell index = .real .nan) : r.FillsGradients s cell := by
  intro k f p u hk hp
  refine ⟨fun j asked => absurd ?_ none, fun _ => nan [k, p] ?_⟩
  · exact List.any_eq_true.2 ⟨f, List.mem_of_getElem? hk, asked⟩
  · exact .cons (List.getElem?_eq_some_iff.1 hk).1
      (.cons (List.getElem?_eq_some_iff.1 hp).1 .nil)

theorem fillsHessians_of_nan (none : ¬s.hessianIndices.any r.active.asksHessian)
    (nan : ∀ index, Inside [s.hessianIndices.length, s.derivatives.length, s.derivatives.length]
      index → cell index = .real .nan) : r.FillsHessians s cell := by
  intro k f p u q w hk hp hq
  refine ⟨fun a b asked => absurd ?_ none, fun _ => nan [k, p, q] ?_⟩
  · exact List.any_eq_true.2 ⟨f, List.mem_of_getElem? hk, asked⟩
  · exact .cons (List.getElem?_eq_some_iff.1 hk).1
      (.cons (List.getElem?_eq_some_iff.1 hp).1 (.cons (List.getElem?_eq_some_iff.1 hq).1 .nil))

theorem fillsMetadata_of_nan (none : r.metadata = [])
    (nan : ∀ index, Inside [s.metadata] index → cell index = .real .nan) :
    r.FillsMetadata s cell := by
  intro j hj
  exact ⟨fun _ => nan [j] (.cons hj .nil), fun some_ => absurd none some_⟩

end

variable {root} {a : Archive} {part : EvaluationPart} {d : Dataset} {shape : List Nat}

/-- Writing what a response has for a part into a fresh row: only a record without a frame
fails. -/
theorem ends_answerRow (sound : a.Sound) (known : strictlyAscending s.derivatives = true)
    (fit : r.Fit s) (mem : part ∈ answered) (has : part.shape? s = some shape)
    (found : a.at? (part.path root) = some d) (table : d.IsTable part.element shape)
    (low : i < d.rows) (fresh : d.row i = List.replicate (volume shape) part.fill) :
    Ends (part.answerRow root s r i) a
      (fun _ => Archive.TurnsInto a (part.path root) (Touched d i) (part.Answered s r i d))
      (fun e a' => e.isUnencodable ∧
        ∃ d', Touched d i d' ∧ Archive.Turned a (part.path root) d' a') := by
  -- Where nothing is written, there is the fill, and this is NaN.
  have unwritten (answers : (∀ index, Inside shape index → d.cell (i :: index) = .real .nan) →
      part.Answers s r fun index => d.cell (i :: index)) (real : part.fill = .real .nan) :
      Archive.TurnsInto a (part.path root) (Touched d i) (part.Answered s r i d) a :=
    .refl sound found ⟨.refl d i, answers fun index inside =>
      real ▸ Dataset.cell_of_replicate table.dims fresh inside⟩
  cases part with
  | functions =>
    obtain rfl := eq_of_rowOf has
    have length : (Recording.functionRow r).length = s.functions := by
      rw [Recording.functionRow, List.length_mapIdx, ← fit.functions]
      rfl
    refine (Archive.ends_setVector sound found (length ▸ table) low).mono ?_ fun _ _ bad => bad
    exact fun _ a' turns => turns.mono fun d' wrote =>
      ⟨wrote.touched, fillsValues_of_row fit (wrote.dims.trans table.dims) wrote.here⟩
  | gradients =>
    cases (Option.ite_none_right_eq_some.1 has).2
    refine ends_ite.2 ⟨fun _ => ?_, fun none =>
      ends_pure.2 (unwritten (fillsGradients_of_nan none) rfl)⟩
    refine (Archive.ends_setMatrix sound found table low).mono ?_ fun _ _ bad => bad
    exact fun _ a' turns => turns.mono fun d' wrote => ⟨wrote.touched,
      fillsGradients_of_row known fit (wrote.dims.trans table.dims) wrote.here⟩
  | hessians =>
    cases (Option.ite_none_right_eq_some.1 has).2
    refine ends_ite.2 ⟨fun _ => ?_, fun none =>
      ends_pure.2 (unwritten (fillsHessians_of_nan none) rfl)⟩
    rw [← List.length_map (f := Recording.hessianOf s r)] at table
    refine (Archive.ends_setMatrices sound found table low fun m mem => ?_).mono ?_
      fun _ _ bad => bad
    · obtain ⟨f, -, rfl⟩ := List.mem_map.1 mem
      exact ⟨rfl, rfl⟩
    · exact fun _ a' turns => turns.mono fun d' ⟨touched, entries⟩ =>
        ⟨touched, fillsHessians_of_entries known fit entries⟩
  | metadata =>
    obtain rfl := eq_of_rowOf has
    refine ends_ite.2 ⟨fun none => ends_pure.2 (unwritten (fillsMetadata_of_nan none) rfl),
      fun some_ => ?_⟩
    have length := fit.metadata some_
    refine (Archive.ends_setVector sound found (length ▸ table) low).mono ?_ fun _ _ bad => bad
    exact fun _ a' turns => turns.mono fun d' wrote => ⟨wrote.touched,
      fillsMetadata_of_row length (wrote.dims.trans table.dims) wrote.here⟩
  | _ => simp [answered] at mem

/-- What writing a response makes of a part. -/
def AnsweredIf (s : EvaluationSchema) (r : Response) (i : Nat) (part : EvaluationPart)
    (d d' : Dataset) : Prop :=
  if part ∈ answered ∧ (part.shape? s).isSome then part.Answered s r i d d' else d' = d

theorem AnsweredIf.touched {s : EvaluationSchema} {r : Response} {i : Nat} {part : EvaluationPart}
    {d d' : Dataset} (h : AnsweredIf s r i part d d') : Touched d i d' := by
  unfold AnsweredIf at h
  split at h
  · exact Answered.touched h
  · exact h ▸ .refl d i

end EvaluationPart

/-- A row that waits for a response: the parts of the schema have it, and where the response goes
they hold the fill. -/
structure Archive.Awaits (a : Archive) (root : Path) (s : EvaluationSchema) (i : Nat) : Prop where
  tables : ∀ (part : EvaluationPart) shape, part.shape? s = some shape →
    ∃ d, a.at? (part.path root) = some d ∧ d.IsTable part.element shape ∧ i < d.rows ∧
      (part ∈ EvaluationPart.answered → d.row i = List.replicate (volume shape) part.fill)

/-- What a response may have made of a part so far: it touched the row of those that responses go
into. -/
def EvaluationPart.AnsweredSoFar (i : Nat) (part : EvaluationPart) (d d' : Dataset) : Prop :=
  if part ∈ EvaluationPart.answered then Touched d i d' else d' = d

/-- What a response makes of one of the parts that responses go into: its row is the answer, if the
schema has the part. -/
def EvaluationPart.AnsweredIfHad (s : EvaluationSchema) (r : Response) (i : Nat)
    (part : EvaluationPart) (d d' : Dataset) : Prop :=
  if (part.shape? s).isSome then part.Answered s r i d d' else d' = d

theorem EvaluationPart.AnsweredIfHad.touched {s : EvaluationSchema} {r : Response} {i : Nat}
    {part : EvaluationPart} {d d' : Dataset} (h : part.AnsweredIfHad s r i d d') :
    Touched d i d' := by
  unfold AnsweredIfHad at h
  split at h
  · exact Answered.touched h
  · exact h ▸ .refl d i

/-- While the parts are answered one after the other, their rows are all that is touched. -/
theorem Archive.Halfway.answeredSoFar {a b : Archive} {root : Path} {s : EvaluationSchema}
    {r : Response} {i : Nat}
    (h : Halfway root EvaluationPart.answered (fun _ d d' => Touched d i d')
      (EvaluationPart.AnsweredIfHad s r i) a b) :
    Reworked root (EvaluationPart.AnsweredSoFar i) a b := by
  obtain ⟨done, part, rest, split, reworked⟩ := h
  refine reworked.mono fun other d d' changed => ?_
  unfold EvaluationPart.AnsweredSoFar
  by_cases before : other ∈ done
  · rw [if_pos before] at changed
    rw [if_pos (split ▸ List.mem_append_left _ before)]
    exact changed.touched
  · rw [if_neg before] at changed
    by_cases now : other = part
    · rw [if_pos now] at changed
      rw [if_pos (split ▸ now ▸ List.mem_append_right _ (List.mem_cons_self ..))]
      exact changed
    · rw [if_neg now] at changed
      subst changed
      split
      · exact .refl d' i
      · rfl

/-- A response is written into the row that waits for it, and touches nothing else. -/
theorem Archive.ends_writeResponse {a : Archive} {p : Producer} {s : EvaluationSchema}
    {r : Response} {i : Nat} (laid : a.LaidOut) (hr : IsProducerRoot p.root)
    (known : strictlyAscending s.derivatives = true) (fit : r.Fit s)
    (awaits : a.Awaits p.root s i) :
    Ends (Recording.writeResponse (ofSchema p s) s r i) a
      (fun _ a' => Reworked p.root (EvaluationPart.AnsweredIf s r i) a a' ∧
        Passes (Reworked p.root (EvaluationPart.AnsweredSoFar i) a) a a')
      (fun e a' => e.isUnencodable ∧ Reworked p.root (fun _ d d' => Touched d i d') a a') := by
  rw [EvaluationPart.writeResponse_eq]
  have loop := ends_forM_parts (fun _ d d' => Touched d i d') (EvaluationPart.AnsweredIfHad s r i)
    (fun _ d d' => Touched d i d')
    laid.sound hr EvaluationPart.nodup_answered (fun _ d => .refl d i)
    (fun _ _ _ changed => changed.touched) (f := EvaluationPart.answerPart p.root s r i) ?_ ?_
  · refine loop.mono (fun _ a' each => ⟨each.reworked.mono fun part d d' changed => ?_,
      each.way.mono fun _ => Halfway.answeredSoFar⟩) fun _ _ bad => bad
    unfold EvaluationPart.AnsweredIf
    by_cases mem : part ∈ EvaluationPart.answered <;>
      simpa [mem, EvaluationPart.AnsweredIfHad] using changed
  · intro part _ absent
    unfold EvaluationPart.answerPart
    cases has : part.shape? s with
    | none => rfl
    | some shape =>
      obtain ⟨d, found, -⟩ := awaits.tables part shape has
      rw [absent] at found
      cases found
  · intro part mem d found a₁ sound here
    unfold EvaluationPart.answerPart
    cases has : part.shape? s with
    | none =>
      refine ends_pure.2 (.refl sound here ?_)
      simp [EvaluationPart.AnsweredIfHad, has]
    | some shape =>
      obtain ⟨d', found', table, low, fresh⟩ := awaits.tables part shape has
      rw [found] at found'
      cases found'
      have answers : part.AnsweredIfHad s r i d = part.Answered s r i d := by
        funext d'
        simp [EvaluationPart.AnsweredIfHad, has]
      rw [answers]
      exact EvaluationPart.ends_answerRow sound known fit mem has here table low (fresh mem)

end StudyArchive
