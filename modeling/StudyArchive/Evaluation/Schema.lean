import StudyArchive.Evaluation.Producer
import StudyArchive.Evaluation.Response
import StudyArchive.Variables.Basic
/-
# Schemas of evaluations

The first evaluation of a producer fixes the shape of all its evaluations: how many functions and
variables there are, which functions have gradients and Hessians, and by which variables derivatives
are taken.  Later evaluations are compared with the schema, and their derivatives are moved to the
places that the schema gives their variables.
-/

namespace StudyArchive

/-- The shape of a producer's evaluations. -/
structure EvaluationSchema where
  /-- The number of functions. -/
  functions : Nat
  /-- The functions with a row of gradients. -/
  gradientIndices : List Nat
  /-- The functions with a row of Hessians. -/
  hessianIndices : List Nat
  /-- The numbers of the variables that derivatives are taken by. -/
  derivatives : List Nat
  /-- The number of metadata fields. -/
  metadata : Nat
  /-- The numbers of variables of the blocks. -/
  variableCounts : List Nat
  deriving DecidableEq

/-- Whether every number is below the next one. -/
def strictlyAscending : List Nat → Bool
  | a :: b :: rest => a < b && strictlyAscending (b :: rest)
  | _ => true

/-- Refuse derivative variables that are not strictly ascending. -/
def Producer.checkAscending (p : Producer) (ids : List Nat) : Except StudyError Unit :=
  if strictlyAscending ids then .ok () else .error (.unorderedDerivatives p.text ids)

/-- The place that bisection leads to, among `size` places from `base` on: of the places whose
number is not above the one sought the last, if the numbers ascend. -/
def bisect (ids : Array Nat) (id : Nat) (base size : Nat) : Nat :=
  if size ≤ 1 then base
  else
    let half := size / 2
    let middle := base + half
    let next := if id < ids[middle]?.getD 0 then base else middle
    bisect ids id next (size - half)
  termination_by size

/-- Whether bisection finds a number. -/
def bisects (ids : List Nat) (id : Nat) : Bool :=
  let ids := ids.toArray
  ids[bisect ids id 0 ids.size]? = some id

/-- The places of numbers in a list that goes on from a place: one pass over two strictly ascending
lists. -/
def placesFrom : (place : Nat) → (known ids : List Nat) → List (Option Nat)
  | _, _, [] => []
  | _, [], ids => ids.map fun _ => none
  | place, k :: known, id :: ids =>
    if k < id then placesFrom (place + 1) known (id :: ids)
    else if k = id then some place :: placesFrom (place + 1) known ids
    else none :: placesFrom place (k :: known) ids
  termination_by _ known ids => known.length + ids.length

namespace EvaluationSchema

/-- The schema that an evaluation fixes. -/
def capture (p : Producer) (inputs : Variables) (response : Response) (active : ActiveSet) :
    Except StudyError EvaluationSchema := do
  p.checkAscending active.derivatives
  return {
    functions := active.length
    gradientIndices := active.gradientIndices
    hessianIndices := active.hessianIndices
    derivatives := active.derivatives
    metadata := response.metadataLabels.length
    variableCounts := inputs.counts }

/-- How the inputs of an evaluation differ from the schema. -/
def inputDrift? (s : EvaluationSchema) (active : ActiveSet) (inputs : Variables) :
    Option String :=
  if active.length ≠ s.functions then
    some s!"{active.length} functions, expected {s.functions}"
  else if inputs.counts ≠ s.variableCounts then
    some s!"variable counts {showExtents inputs.counts}, expected {showExtents s.variableCounts}"
  else none

/-- How a response differs from the schema. -/
def responseDrift? (s : EvaluationSchema) (r : Response) : Option String :=
  if r.functions ≠ s.functions then
    some s!"{r.functions} function values, expected {s.functions}"
  else if r.metadata ≠ [] ∧ r.metadata.length ≠ s.metadata then
    some s!"{r.metadata.length} metadata values, expected {s.metadata}"
  else none

/-- For each derivative variable of the schema 1 if an evaluation has it, and 0 if not. -/
def flags (s : EvaluationSchema) (ids : List Nat) : List Int32 :=
  s.derivatives.map fun id => if bisects ids id then 1 else 0

/-- For each derivative variable of an evaluation its place in the schema. -/
def places (s : EvaluationSchema) (ids : List Nat) : List (Option Nat) :=
  placesFrom 0 s.derivatives ids

end EvaluationSchema
end StudyArchive
