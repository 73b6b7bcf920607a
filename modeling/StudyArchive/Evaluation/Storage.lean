import StudyArchive.Archive.Write
import StudyArchive.Evaluation.Layout
/-
# Storage for evaluations

Making the datasets of a producer with their scales, and telling whether datasets that are there fit
its schema.
-/

namespace StudyArchive

namespace Archive

/-- Attach the scale of evaluation identifiers to the first axis of a dataset. -/
def attachIds (l : EvaluationLayout) (dataset : Path) : Action Unit :=
  attachScale dataset l.ids EvaluationLayout.idsName 0

/-- Write a scale, unless something is in its place. -/
def writeScale (scale : Path) (e : ElementType) (values : List e.Value) : Action Unit := do
  unless (← get).contains scale do
    createEmpty scale e [values.length] none
    writeVector scale e values

/-- Write a scale of a dataset and attach it to an axis. -/
def putScale (dataset : Path) (label : String) (axis : Nat) (e : ElementType)
    (values : List e.Value) : Action Unit := do
  let scale := EvaluationLayout.scaleOf dataset label
  writeScale scale e values
  attachScale dataset scale label axis

/-- Make a dataset of rows of reals, all of them missing at first. -/
def createReals (path : Path) (row : List Nat) : Action Unit :=
  createEmpty path .real (0 :: row) (some Binary64.nan)

/-- Make the dataset of a block of variables, and the scales that label its columns. -/
def createBlock (l : EvaluationLayout) (path : Path) (e : ElementType) (fill : Option e.Value)
    {α : Type} (block : VariableBlock α) : Action Unit := do
  unless block.labels.isEmpty do
    createEmpty path e [0, block.labels.length] fill
    attachIds l path
    putScale path "labels" 1 .text block.labels
    putScale path "ids" 1 .uint64 block.ids
    putScale path "types" 1 .text (block.kinds.map VariableKind.label)

/-- The names of functions; one that has none is nameless. -/
def functionLabels (r : Response) (indices : List Nat) : List String :=
  indices.map fun i => r.labels[i]?.getD ""

/-- Make the datasets of the functions' values and of the masks that asked for them. -/
def createFunctions (l : EvaluationLayout) (s : EvaluationSchema) (r : Response) : Action Unit := do
  unless s.functions = 0 do
    createReals l.functions [s.functions]
    createEmpty l.requests .int32 [0, s.functions] none
    writeScale l.functionNames .text r.labels
    for path in [l.functions, l.requests] do
      attachIds l path
      attachScale path l.functionNames "responses" 1

/-- Make the dataset of the derivative variables' flags. -/
def createDerivatives (l : EvaluationLayout) (s : EvaluationSchema) : Action Unit := do
  if let some path := l.derivatives then
    createEmpty path .int32 [0, s.derivatives.length] none
    writeScale l.derivativeIds .uint64 (s.derivatives.map UInt64.ofNat)
    attachIds l path
    attachScale path l.derivativeIds "variables" 1

/-- Make a dataset of derivatives of some of the functions, by one or two variables. -/
def createDerived (l : EvaluationLayout) (s : EvaluationSchema) (r : Response) (indices : List Nat)
    (axes : List Nat) (path : Path) : Action Unit := do
  createReals path (indices.length :: axes.map fun _ => s.derivatives.length)
  attachIds l path
  putScale path "resp_descriptors" 1 .text (functionLabels r indices)
  for axis in axes do
    attachScale path l.derivativeIds "variables" axis

/-- Make the datasets of gradients, Hessians and metadata. -/
def createOptional (l : EvaluationLayout) (s : EvaluationSchema) (r : Response) : Action Unit := do
  if let some path := l.gradients then
    createDerived l s r s.gradientIndices [2] path
  if let some path := l.hessians then
    createDerived l s r s.hessianIndices [2, 3] path
  if let some path := l.metadata then
    createReals path [s.metadata]
    attachIds l path
    putScale path "labels" 1 .text r.metadataLabels

/-- Make all the datasets of a producer. -/
def createEvaluations (l : EvaluationLayout) (s : EvaluationSchema) (v : Variables) (r : Response) :
    Action Unit := do
  createEmpty l.ids .uint64 [0] none
  createBlock l l.continuous .real (some Binary64.nan) v.continuous
  createBlock l l.integers .int64 none v.integers
  createBlock l l.texts .text none v.texts
  createBlock l l.reals .real (some Binary64.nan) v.reals
  createFunctions l s r
  createDerivatives l s
  createOptional l s r

/-- The number of rows of the dataset at a path. -/
def countRows (a : Archive) (path : Path) : Except StudyError Nat := do
  match ← (a.dims path).mapError .storage with
  | rows :: _ => return rows
  | [] => throw (.uncountable path)

/-- The text of the extents of a dataset that may be absent. -/
def showShape : Option (List Nat) → String
  | some dims => showExtents dims
  | none => "absent"

/-- The first of the datasets that does not have so many rows of its shape. -/
def firstDrift (a : Archive) (rows : Nat) :
    List (Path × Option (List Nat)) → Except StudyError (Option String)
  | [] => .ok none
  | (path, row) :: rest => do
    let expected := row.map (rows :: ·)
    let found ←
      if a.contains path then (a.dims path).map some |>.mapError .storage else pure none
    if found = expected then a.firstDrift rows rest
    else return some s!"{path} is {showShape found}, expected {showShape expected}"

/-- How the datasets of a producer differ from its schema: all of them must have a row for each
stored evaluation. -/
def evaluationDrift (a : Archive) (l : EvaluationLayout) (s : EvaluationSchema) :
    Except StudyError (Option String) := do
  a.firstDrift (← a.countRows l.ids) (l.rowShapes s)

end Archive
end StudyArchive
