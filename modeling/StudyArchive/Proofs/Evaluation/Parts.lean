import Mathlib.Data.List.Basic
import StudyArchive.Evaluation.Storage
import StudyArchive.Proofs.Path
/-
# The parts of an evaluation

A producer's group holds up to eleven datasets with a row for each evaluation.  As data, they are
one enumeration: each part has its place below the group of the producer, its type of elements, its
fill, and the shape that a schema gives its rows.  No part lies at or below the place of another one
(`EvaluationPart.eq_of_isPrefix`), and nothing else that is stored about evaluations lies at or
below a part (`Apart`).
-/

namespace StudyArchive

/-- The datasets with a row for each evaluation. -/
inductive EvaluationPart where
  | ids
  | continuous
  | integers
  | texts
  | reals
  | functions
  | requests
  | gradients
  | hessians
  | derivatives
  | metadata
  deriving DecidableEq

/-- The group of a producer whose identifiers are segments. -/
def IsProducerRoot (root : Path) : Prop :=
  ∃ group a b, (group = "models" ∨ group = "interfaces") ∧ root.segments = [group, a, b]

/-- A producer whose identifiers are single nonempty segments. -/
def Producer.IsProper : Producer → Prop
  | model type id => Path.IsSegment type ∧ Path.IsSegment id
  | interface id owner _ => Path.IsSegment id ∧ Path.IsSegment owner

instance (p : Producer) : Decidable p.IsProper := by
  cases p <;> exact inferInstanceAs (Decidable (_ ∧ _))

theorem Producer.segments_root {p : Producer} (proper : p.IsProper) :
    IsProducerRoot p.root := by
  cases p with
  | model type id =>
    exact ⟨"models", type, id, .inl rfl,
      Path.segments_ofTexts_three (by decide) proper.1 proper.2⟩
  | interface id owner kind =>
    exact ⟨"interfaces", id, owner, .inr rfl,
      Path.segments_ofTexts_three (by decide) proper.1 proper.2⟩

namespace EvaluationPart

open EvaluationLayout

/-! ## Places -/

/-- Where a part lies, given the group of the producer. -/
def path (root : Path) : EvaluationPart → Path
  | ids => root.scaleMirror.join idsName
  | continuous => (root.join "variables").join "continuous"
  | integers => (root.join "variables").join "discrete_integer"
  | texts => (root.join "variables").join "discrete_string"
  | reals => (root.join "variables").join "discrete_real"
  | functions => (responsesOf root).join "functions"
  | requests => (propertiesOf root).join "active_set_vector"
  | gradients => gradientsOf root
  | hessians => hessiansOf root
  | derivatives => derivativesOf root
  | metadata => metadataOf root

/-- The segments of a part's place, given those of the group. -/
def place (root : List String) : EvaluationPart → List String
  | ids => "_scales" :: root ++ ["evaluation_ids"]
  | continuous => root ++ ["variables", "continuous"]
  | integers => root ++ ["variables", "discrete_integer"]
  | texts => root ++ ["variables", "discrete_string"]
  | reals => root ++ ["variables", "discrete_real"]
  | functions => root ++ ["responses", "functions"]
  | requests => root ++ ["properties", "active_set_vector"]
  | gradients => root ++ ["responses", "gradients"]
  | hessians => root ++ ["responses", "hessians"]
  | derivatives => root ++ ["properties", "derivative_variables_vector"]
  | metadata => root ++ ["metadata"]

theorem segments_path (root : Path) (part : EvaluationPart) :
    (part.path root).segments = part.place root.segments := by
  have two (p : Path) {a b : String} (ha : Path.IsSegment a) (hb : Path.IsSegment b) :
      ((p.join a).join b).segments = p.segments ++ [a, b] := by
    rw [Path.segments_join_of_isSegment _ hb, Path.segments_join_of_isSegment _ ha,
      List.append_assoc]
    rfl
  cases part with
  | ids =>
    rw [path, Path.segments_join_of_isSegment _ (by decide), Path.segments_scaleMirror]
    rfl
  | metadata => exact Path.segments_join_of_isSegment _ (by decide)
  | _ => exact two root (by decide) (by decide)

theorem path_ne_root (root : Path) (part : EvaluationPart) : part.path root ≠ .root := by
  intro same
  have segments := segments_path root part
  rw [same] at segments
  cases part <;> simp [place, Path.root] at segments

/-- A part that lies on the way to a part, or there, is that part. -/
theorem eq_of_isPrefix {root root' : Path} (hr : IsProducerRoot root) (hr' : IsProducerRoot root')
    {part part' : EvaluationPart}
    (h : (part.path root).segments <+: (part'.path root').segments) :
    part = part' ∧ root = root' := by
  obtain ⟨group, a, b, hg, hs⟩ := hr
  obtain ⟨group', a', b', hg', hs'⟩ := hr'
  rw [segments_path, segments_path, hs, hs'] at h
  suffices part = part' ∧ group = group' ∧ a = a' ∧ b = b' by
    obtain ⟨rfl, rfl, rfl, rfl⟩ := this
    exact ⟨rfl, Path.ext_segments (hs.trans hs'.symm)⟩
  rcases hg with rfl | rfl <;> rcases hg' with rfl | rfl <;> cases part <;> cases part' <;>
    simp_all [place, List.cons_prefix_cons]

theorem path_injective {root root' : Path} (hr : IsProducerRoot root)
    (hr' : IsProducerRoot root') {part part' : EvaluationPart}
    (h : part.path root = part'.path root') : part = part' ∧ root = root' :=
  eq_of_isPrefix hr hr' (h ▸ List.prefix_rfl)

end EvaluationPart

/-! ## Places apart

Everything else that the store makes lies under another name below the group, or outside. -/

/-- A place that is not at or below a part of any producer. -/
def Apart (path : Path) : Prop :=
  ∀ root, IsProducerRoot root → ∀ part : EvaluationPart,
    ¬(part.path root).segments <+: path.segments

/-- A place that is a part or apart: making an object there makes no group of a part. -/
def Clear (path : Path) : Prop :=
  ∀ root, IsProducerRoot root → ∀ part : EvaluationPart,
    (part.path root).segments <+: path.segments → part.path root = path

theorem Apart.clear {path : Path} (h : Apart path) : Clear path :=
  fun root hr part below => absurd below (h root hr part)

theorem Apart.ne {path : Path} (h : Apart path) {root : Path} (hr : IsProducerRoot root)
    (part : EvaluationPart) : part.path root ≠ path :=
  fun same => h root hr part (same ▸ List.prefix_rfl)

theorem EvaluationPart.clear_path {root : Path} (hr : IsProducerRoot root)
    (part : EvaluationPart) : Clear (part.path root) := by
  intro root' hr' part' below
  obtain ⟨rfl, rfl⟩ := eq_of_isPrefix hr' hr below
  rfl

theorem apart_of_scales {path : Path} {group a b x : String} {rest : List String}
    (h : path.segments = "_scales" :: group :: a :: b :: x :: rest) (ne : x ≠ "evaluation_ids") :
    Apart path := by
  rintro root ⟨group', a', b', hg, hs⟩ part
  rw [EvaluationPart.segments_path, h, hs]
  rcases hg with rfl | rfl <;> cases part <;>
    simp [EvaluationPart.place, List.cons_prefix_cons, ne.symm]

theorem apart_of_methods {path : Path} {rest : List String}
    (h : path.segments = "methods" :: rest) : Apart path := by
  rintro root ⟨group', a', b', hg, hs⟩ part
  rw [EvaluationPart.segments_path, h, hs]
  rcases hg with rfl | rfl <;> cases part <;>
    simp [EvaluationPart.place, List.cons_prefix_cons]

theorem apart_of_root {path root : Path} (hr : IsProducerRoot root) {x : String}
    {rest : List String} (h : path.segments = root.segments ++ x :: rest)
    (ne : ∀ part : EvaluationPart, ¬part.place [] <+: x :: rest) : Apart path := by
  obtain ⟨group, a, b, hg, hs⟩ := hr
  rintro root' ⟨group', a', b', hg', hs'⟩ part
  have apart := ne part
  rw [EvaluationPart.segments_path, h, hs, hs']
  rcases hg with rfl | rfl <;> cases part <;>
    simp_all [EvaluationPart.place, List.cons_prefix_cons]

section
open EvaluationLayout

/-- The place of a scale below a producer's group, other than that of the identifiers. -/
def IsScalePlace (root path : Path) : Prop :=
  ∃ x rest, path.segments = "_scales" :: root.segments ++ x :: rest ∧ x ≠ idsName

theorem IsScalePlace.apart {root path : Path} (h : IsScalePlace root path)
    (hr : IsProducerRoot root) : Apart path := by
  obtain ⟨x, rest, segments, ne⟩ := h
  obtain ⟨group, a, b, -, hs⟩ := hr
  rw [hs] at segments
  exact apart_of_scales segments ne

/-- Whatever lies below the place of a scale is the place of one. -/
theorem IsScalePlace.of_isPrefix {root path below : Path} (h : IsScalePlace root path)
    (front : path.segments <+: below.segments) : IsScalePlace root below := by
  obtain ⟨x, rest, segments, ne⟩ := h
  obtain ⟨more, eq⟩ := front
  refine ⟨x, rest ++ more, ?_, ne⟩
  rw [← eq, segments]
  simp

theorem IsScalePlace.root_eq {root root' path : Path} (h : IsScalePlace root path)
    (h' : IsScalePlace root' path) (hr : IsProducerRoot root) (hr' : IsProducerRoot root') :
    root' = root := by
  obtain ⟨x, rest, segments, -⟩ := h
  obtain ⟨x', rest', segments', -⟩ := h'
  obtain ⟨group, a, b, -, hs⟩ := hr
  obtain ⟨group', a', b', -, hs'⟩ := hr'
  refine Path.ext_segments ?_
  rw [segments, hs, hs'] at segments'
  rw [hs, hs']
  simp_all

/-- The scales of a part, and of the groups of parts. -/
theorem isScalePlace_scaleOf_part {root : Path} {part : EvaluationPart} (ne : part ≠ .ids)
    (label : String) : IsScalePlace root (scaleOf (part.path root) label) := by
  have segments : (scaleOf (part.path root) label).segments =
      "_scales" :: part.place root.segments ++ Path.parts label := by
    rw [scaleOf, Path.segments_join, Path.segments_scaleMirror, EvaluationPart.segments_path]
    rfl
  cases part with
  | ids => exact absurd rfl ne
  | _ => exact ⟨_, _, by rw [segments]; simp only [EvaluationPart.place, List.cons_append,
      List.append_assoc, List.nil_append]; rfl, by decide⟩

theorem isScalePlace_scaleOf_responses (root : Path) (label : String) :
    IsScalePlace root (scaleOf (responsesOf root) label) := by
  refine ⟨"responses", Path.parts label, ?_, by decide⟩
  rw [scaleOf, Path.segments_join, Path.segments_scaleMirror, responsesOf,
    Path.segments_join_of_isSegment _ (by decide)]
  simp [Path.scalesName]

theorem not_isScalePlace_part {root root' : Path} (hr : IsProducerRoot root)
    (hr' : IsProducerRoot root') (part : EvaluationPart) :
    ¬IsScalePlace root' (part.path root) :=
  fun place => (place.apart hr').ne hr part rfl

end

theorem apart_parameters {root : Path} (hr : IsProducerRoot root) (name : String) :
    Apart (((root.join "properties").join "variable_parameters").join name) := by
  have segments : (((root.join "properties").join "variable_parameters").join name).segments =
      root.segments ++ "properties" :: "variable_parameters" :: Path.parts name := by
    rw [Path.segments_join, Path.segments_join_of_isSegment _ (by decide),
      Path.segments_join_of_isSegment _ (by decide)]
    simp
  refine apart_of_root hr segments fun part => ?_
  cases part <;> simp [EvaluationPart.place, List.cons_prefix_cons]

theorem not_isScalePlace_parameters {root : Path} (hr : IsProducerRoot root) (name : String)
    (root' : Path) :
    ¬IsScalePlace root' (((root.join "properties").join "variable_parameters").join name) := by
  rintro ⟨x, rest, segments', -⟩
  obtain ⟨group, a, b, hg, hs⟩ := hr
  rw [Path.segments_join, Path.segments_join_of_isSegment _ (by decide),
    Path.segments_join_of_isSegment _ (by decide), hs] at segments'
  rcases hg with rfl | rfl <;> simp at segments'

/-- A source that is a method or a proper producer. -/
def Source.IsProper : Source → Prop
  | method _ => True
  | producer p => p.IsProper

instance (s : Source) : Decidable s.IsProper := by
  cases s with
  | method id => exact isTrue trivial
  | producer p => exact inferInstanceAs (Decidable p.IsProper)

theorem apart_sources {owner : Source} (proper : owner.IsProper) (name : String) :
    Apart ((owner.root.join "sources").join name) := by
  cases owner with
  | method id =>
    have root : (Source.method id).root.segments = "methods" :: Path.parts id := by
      have first : Path.parts "methods" = ["methods"] := Path.parts_of_isSegment (by decide)
      show ([] ++ Path.parts "methods") ++ Path.parts id = _
      rw [first]
      rfl
    have segments : (((Source.method id).root.join "sources").join name).segments =
        "methods" :: (Path.parts id ++ ["sources"] ++ Path.parts name) := by
      rw [Path.segments_join, Path.segments_join_of_isSegment _ (by decide), root]
      rfl
    exact apart_of_methods segments
  | producer p =>
    have segments : ((p.root.join "sources").join name).segments =
        p.root.segments ++ "sources" :: Path.parts name := by
      rw [Path.segments_join, Path.segments_join_of_isSegment _ (by decide)]
      simp
    refine apart_of_root (Producer.segments_root proper) segments fun part => ?_
    cases part <;> simp [EvaluationPart.place, List.cons_prefix_cons]

/-- Where links to sources lie. -/
def IsLinkPlace (path : Path) : Prop :=
  ∃ owner : Source, owner.IsProper ∧ ∃ name, path = (owner.root.join "sources").join name

/-- A link lies below the methods, or third below a producer's group in one place. -/
theorem IsLinkPlace.segments {path : Path} (h : IsLinkPlace path) :
    path.segments.head? = some "methods" ∨
      ∃ root rest, IsProducerRoot root ∧ path.segments = root.segments ++ "sources" :: rest := by
  obtain ⟨owner, proper, name, rfl⟩ := h
  cases owner with
  | method id =>
    have first : Path.parts "methods" = ["methods"] := Path.parts_of_isSegment (by decide)
    refine .inl ?_
    show ((([] ++ Path.parts "methods") ++ Path.parts id ++ Path.parts "sources") ++
      Path.parts name).head? = _
    rw [first]
    rfl
  | producer p =>
    refine .inr ⟨p.root, Path.parts name, Producer.segments_root proper, ?_⟩
    show ((p.root.join "sources").join name).segments = _
    rw [Path.segments_join, Path.segments_join_of_isSegment _ (by decide)]
    simp

theorem not_isLinkPlace_of_scales {path : Path} {rest : List String}
    (h : path.segments = "_scales" :: rest) : ¬IsLinkPlace path := by
  intro link
  rcases link.segments with head | ⟨root, rest', ⟨group, a, b, hg, hs⟩, segments⟩
  · rw [h] at head
    simp at head
  · rw [h, hs] at segments
    rcases hg with rfl | rfl <;> simp at segments

theorem IsScalePlace.not_isLinkPlace {root path : Path} (h : IsScalePlace root path) :
    ¬IsLinkPlace path := by
  obtain ⟨x, rest, segments, -⟩ := h
  exact not_isLinkPlace_of_scales segments

theorem not_isLinkPlace_parameters {root : Path} (hr : IsProducerRoot root) (name : String) :
    ¬IsLinkPlace (((root.join "properties").join "variable_parameters").join name) := by
  intro link
  obtain ⟨group, a, b, hg, hs⟩ := hr
  have segments : (((root.join "properties").join "variable_parameters").join name).segments =
      group :: a :: b :: "properties" :: "variable_parameters" :: Path.parts name := by
    rw [Path.segments_join, Path.segments_join_of_isSegment _ (by decide),
      Path.segments_join_of_isSegment _ (by decide), hs]
    simp
  rcases link.segments with head | ⟨root', rest, ⟨group', a', b', -, hs'⟩, segments'⟩
  · rw [segments] at head
    rcases hg with rfl | rfl <;> simp at head
  · rw [segments, hs'] at segments'
    simp at segments'

/-! ## Shapes

A part is there or not by the schema, and so is the shape of its rows. -/

namespace EvaluationPart

open EvaluationLayout

/-- The type of a part's elements. -/
def element : EvaluationPart → ElementType
  | ids => .uint64
  | integers => .int64
  | texts => .text
  | requests | derivatives => .int32
  | continuous | reals | functions | gradients | hessians | metadata => .real

/-- What a part holds before it is written. -/
def fill (part : EvaluationPart) : Datum :=
  match part.element with
  | .real => .real .nan
  | e => Datum.zeroOf e

/-- The extents of a row, if a schema has the part. -/
def shape? (s : EvaluationSchema) : EvaluationPart → Option (List Nat)
  | ids => some []
  | continuous => rowOf (s.variableCounts[0]?.getD 0)
  | integers => rowOf (s.variableCounts[1]?.getD 0)
  | texts => rowOf (s.variableCounts[2]?.getD 0)
  | reals => rowOf (s.variableCounts[3]?.getD 0)
  | functions | requests => rowOf s.functions
  | gradients =>
    if s.derivatives ≠ [] ∧ s.gradientIndices ≠ [] then
      some [s.gradientIndices.length, s.derivatives.length]
    else none
  | hessians =>
    if s.derivatives ≠ [] ∧ s.hessianIndices ≠ [] then
      some [s.hessianIndices.length, s.derivatives.length, s.derivatives.length]
    else none
  | derivatives => if s.derivatives ≠ [] then some [s.derivatives.length] else none
  | metadata => rowOf s.metadata

theorem eq_of_rowOf {n : Nat} {row : List Nat} (h : rowOf n = some row) : row = [n] := by
  unfold rowOf at h
  split at h
  · cases h
  · exact (Option.some.inj h).symm

/-- The parts that drift is looked for in, in order. -/
def checked : List EvaluationPart :=
  [continuous, integers, texts, reals, functions, requests, gradients, hessians, derivatives,
    metadata]

theorem mem_checked {part : EvaluationPart} (ne : part ≠ ids) : part ∈ checked := by
  cases part <;> first | exact absurd rfl ne | decide

/-- The shapes that a layout expects are those of the parts. -/
theorem rowShapes_ofSchema (p : Producer) {s : EvaluationSchema}
    (four : s.variableCounts.length = 4) :
    (ofSchema p s).rowShapes s = checked.map fun part => (part.path p.root, part.shape? s) := by
  obtain ⟨c₀, c₁, c₂, c₃, counts⟩ := List.length_eq_four.1 four
  simp only [rowShapes, blocks, ofSchema, counts, checked, List.map_cons, List.map_nil,
    List.zip_cons_cons, List.zip_nil_left, List.cons_append, List.nil_append, path, shape?]
  simp only [List.getElem?_cons_zero, List.getElem?_cons_succ, Option.getD_some, rowOf]
  by_cases derived : s.derivatives = [] <;> by_cases gradients : s.gradientIndices = [] <;>
    by_cases hessians : s.hessianIndices = [] <;> by_cases metadata : s.metadata = 0 <;>
    simp [derived, gradients, hessians, metadata]

/-! A layout has a place for an optional part if the schema has the part. -/

theorem gradients_ofSchema (p : Producer) (s : EvaluationSchema) :
    (ofSchema p s).gradients = (gradients.shape? s).map fun _ => gradients.path p.root := by
  simp only [ofSchema, shape?, path]
  split <;> rfl

theorem hessians_ofSchema (p : Producer) (s : EvaluationSchema) :
    (ofSchema p s).hessians = (hessians.shape? s).map fun _ => hessians.path p.root := by
  simp only [ofSchema, shape?, path]
  split <;> rfl

theorem derivatives_ofSchema (p : Producer) (s : EvaluationSchema) :
    (ofSchema p s).derivatives = (derivatives.shape? s).map fun _ => derivatives.path p.root := by
  simp only [ofSchema, shape?, path]
  split <;> rfl

theorem metadata_ofSchema (p : Producer) (s : EvaluationSchema) :
    (ofSchema p s).metadata = (metadata.shape? s).map fun _ => metadata.path p.root := by
  simp only [ofSchema, shape?, path, rowOf]
  by_cases none : s.metadata = 0 <;> simp [none]

end EvaluationPart
end StudyArchive
