import StudyArchive.Evaluation.Schema
/-
# Where evaluations are stored

A producer's group holds a dataset for each part of an evaluation, with a row for each evaluation.
The scales that number and name the parts lie in the mirror of the group.
-/

namespace StudyArchive

/-- The datasets of a producer; a part that the schema leaves out has none. -/
structure EvaluationLayout where
  root : Path
  /-- The identifiers of the evaluations, and the scale of every first axis. -/
  ids : Path
  continuous : Path
  integers : Path
  texts : Path
  reals : Path
  functions : Path
  gradients : Option Path
  hessians : Option Path
  /-- The masks of the active sets. -/
  requests : Path
  /-- Which derivative variables an evaluation has. -/
  derivatives : Option Path
  metadata : Option Path
  deriving DecidableEq

namespace EvaluationLayout

/-- The label of the scale of evaluation identifiers. -/
def idsName : String := "evaluation_ids"

/-- The group of what evaluations gave. -/
def responsesOf (root : Path) : Path := root.join "responses"

/-- The group of what was asked of evaluations. -/
def propertiesOf (root : Path) : Path := root.join "properties"

/-- The place of the gradients below a group. -/
def gradientsOf (root : Path) : Path := (responsesOf root).join "gradients"

/-- The place of the Hessians below a group. -/
def hessiansOf (root : Path) : Path := (responsesOf root).join "hessians"

/-- The place of the flags of derivative variables below a group. -/
def derivativesOf (root : Path) : Path := (propertiesOf root).join "derivative_variables_vector"

/-- The place of the metadata below a group. -/
def metadataOf (root : Path) : Path := root.join "metadata"

/-- The layout of a producer whose evaluations have a schema. -/
def ofSchema (p : Producer) (s : EvaluationSchema) : EvaluationLayout :=
  let root := p.root
  let group := root.join "variables"
  let derived := s.derivatives ≠ []
  { root
    ids := root.scaleMirror.join idsName
    continuous := group.join "continuous"
    integers := group.join "discrete_integer"
    texts := group.join "discrete_string"
    reals := group.join "discrete_real"
    functions := (responsesOf root).join "functions"
    gradients := if derived ∧ s.gradientIndices ≠ [] then some (gradientsOf root) else none
    hessians := if derived ∧ s.hessianIndices ≠ [] then some (hessiansOf root) else none
    requests := (propertiesOf root).join "active_set_vector"
    derivatives := if derived then some (derivativesOf root) else none
    metadata := if s.metadata ≠ 0 then some (metadataOf root) else none }

/-- The datasets of the variable blocks, in order. -/
def blocks (l : EvaluationLayout) : List Path := [l.continuous, l.integers, l.texts, l.reals]

/-- The extents of a row of so many values, none if there are no values. -/
def rowOf (n : Nat) : Option (List Nat) := if n = 0 then none else some [n]

/-- Every dataset that may belong to the producer, with the extents of its rows, or none where there
must be no dataset. -/
def rowShapes (l : EvaluationLayout) (s : EvaluationSchema) : List (Path × Option (List Nat)) :=
  let width := s.derivatives.length
  l.blocks.zip (s.variableCounts.map rowOf) ++
    [(l.functions, rowOf s.functions),
      (l.requests, rowOf s.functions),
      (gradientsOf l.root, l.gradients.map fun _ => [s.gradientIndices.length, width]),
      (hessiansOf l.root, l.hessians.map fun _ => [s.hessianIndices.length, width, width]),
      (derivativesOf l.root, l.derivatives.map fun _ => [width]),
      (metadataOf l.root, l.metadata.map fun _ => [s.metadata])]

/-- The place of a scale of a dataset. -/
def scaleOf (dataset : Path) (name : String) : Path := dataset.scaleMirror.join name

/-- The scale of the derivative variables' numbers. -/
def derivativeIds (l : EvaluationLayout) : Path :=
  scaleOf (responsesOf l.root) "derivative_variables"

/-- The scale of the functions' names. -/
def functionNames (l : EvaluationLayout) : Path :=
  scaleOf (responsesOf l.root) "function_descriptors"

end EvaluationLayout
end StudyArchive
