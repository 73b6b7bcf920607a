import StudyArchive.Binary64.Basic
import StudyArchive.Evaluation.ActiveSet
import StudyArchive.Matrix
import StudyArchive.StudyError
/-
# Responses

A response holds what an evaluation gave: a value for each function, the gradients as the columns of
one matrix, a Hessian for each function, and metadata.
-/

namespace StudyArchive

/-- The results of one evaluation. -/
structure Response where
  /-- The active set that the response answers. -/
  active : ActiveSet
  /-- The names of the functions. -/
  labels : List String
  /-- The values of the functions. -/
  values : List Binary64
  /-- The gradients: a row for each derivative variable and a column for each function. -/
  gradients : Matrix Binary64
  /-- The Hessians; one that was not asked for is empty. -/
  hessians : List (Matrix Binary64)
  metadataLabels : List String := []
  metadata : List Binary64 := []
  deriving DecidableEq

namespace Response

/-- The response with room for what an active set asks for, all of it zero. -/
def blank (active : ActiveSet) (labels : List String) : Response where
  active
  labels
  values := List.replicate active.length .zero
  gradients :=
    .filled active.derivatives.length
      (if active.gradientIndices = [] then 0 else active.length) .zero
  hessians := (List.range active.length).map fun i =>
    let size := if active.asksHessian i then active.derivatives.length else 0
    .filled size size .zero

/-- The number of functions. -/
def functions (r : Response) : Nat := r.values.length

/-- Set the value of a function. -/
def setValue (r : Response) (i : Nat) (v : Binary64) : Except StudyError Response :=
  if i < r.values.length then .ok { r with values := r.values.set i v }
  else .error (.outOfRange "function_values" i r.values.length)

/-- A matrix with a column's cells replaced from a row down; cells below the matrix are dropped. -/
def putColumn (col : Nat) : (row : Nat) → List Binary64 → Matrix Binary64 → Matrix Binary64
  | _, [], m => m
  | row, v :: rest, m => putColumn col (row + 1) rest (m.set row col v)

/-- Set the gradient of a function. -/
def setGradient (r : Response) (i : Nat) (gradient : List Binary64) : Except StudyError Response :=
  if i < r.gradients.cols then .ok { r with gradients := putColumn i 0 gradient r.gradients }
  else .error (.outOfRange "gradients" i r.gradients.cols)

/-- Set the Hessian of a function. -/
def setHessian (r : Response) (i : Nat) (hessian : Matrix Binary64) : Except StudyError Response :=
  if i < r.hessians.length then .ok { r with hessians := r.hessians.set i hessian }
  else .error (.outOfRange "hessians" i r.hessians.length)

/-- The gradient of a function, if there is room for it. -/
def gradient? (r : Response) (i : Nat) : Option (List Binary64) :=
  if h : i < r.gradients.cols then some (r.gradients.column ⟨i, h⟩) else none

end Response
end StudyArchive
