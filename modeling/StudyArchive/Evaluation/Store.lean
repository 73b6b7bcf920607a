import StudyArchive.Config.Study
import StudyArchive.Evaluation.Storage
/-
# The store of evaluations

Evaluations are stored in two steps.  When an evaluation is sent out, its identifier, variables and
active set are appended, and a row is reserved wherever its response will go; when the response
comes, in whatever order, it is written into the reserved row.  So row `i` of every dataset of a
producer is about the same evaluation.
-/

namespace StudyArchive

/-- What the store knows of a producer. -/
structure ProducerRecord where
  schema : EvaluationSchema
  layout : EvaluationLayout
  /-- Whether no further evaluations are stored. -/
  disabled : Bool
  deriving DecidableEq

/-- Why a producer's evaluations are no longer stored. -/
inductive StoreNotice where
  /-- The datasets that are there do not fit. -/
  | unfitStorage (producer reason : String)
  /-- An evaluation does not fit. -/
  | drift (producer : String) (id : UInt64) (reason : String)
  deriving DecidableEq

def StoreNotice.message : StoreNotice → String
  | unfitStorage .. =>
    "Existing evaluation storage does not match the allocated schema; " ++
      "evaluations of this producer are not stored"
  | drift .. =>
    "Evaluation does not match the allocated schema; " ++
      "no further evaluations of this producer are stored"

/-- The named facts of a notice. -/
def StoreNotice.fields : StoreNotice → List (String × String)
  | unfitStorage producer reason => [("producer", producer), ("reason", reason)]
  | drift producer id reason =>
    [("producer", producer), ("eval_id", toString id.toNat), ("reason", reason)]

/-- Which producers are stored, what is known of them, and which rows wait for a response. -/
structure EvaluationStore where
  models : ModelSelection := .all
  interfaces : InterfaceSelection := .all
  /-- The model of the method at the top. -/
  topModel : Option String := none
  /-- The models of all methods. -/
  methodModels : List String := []
  producers : Table Producer ProducerRecord := ∅
  /-- The rows that wait for a response. -/
  slots : Table (Producer × UInt64) Nat := ∅
  deriving DecidableEq

/-- A store, the archive it writes to, and the notices it gave. -/
structure Recording where
  archive : Archive
  store : EvaluationStore
  notices : List StoreNotice := []

namespace EvaluationStore

instance : Inhabited EvaluationStore := ⟨{}⟩

/-- The store with a model named as the one of a method. -/
def addMethodModel (s : EvaluationStore) (id : String) : EvaluationStore :=
  if id ∈ s.methodModels then s else { s with methodModels := s.methodModels ++ [id] }

/-- The store with a model named as the one of the method at the top. -/
def setTopModel (s : EvaluationStore) (id : String) : EvaluationStore :=
  { s.addMethodModel id with topModel := some id }

/-- Whether the evaluations of a producer are stored. -/
def selects (s : EvaluationStore) : Producer → Bool
  | .model _ id =>
    match s.models with
    | .all => true
    | .allMethods => id ∈ s.methodModels
    | .topMethod => s.topModel = some id
    | .none => false
  | .interface _ _ kind =>
    match s.interfaces with
    | .all => true
    | .simulation => kind = .simulation
    | .none => false

def schema? (s : EvaluationStore) (p : Producer) : Option EvaluationSchema :=
  (s.producers.get? p).map (·.schema)

/-- Whether a producer's evaluations are no longer stored. -/
def isDisabled (s : EvaluationStore) (p : Producer) : Bool :=
  match s.producers.get? p with
  | some r => r.disabled
  | none => false

/-- The number of rows that wait for a response. -/
def pending (s : EvaluationStore) : Nat := s.slots.size

/-- The store without an evaluation's slot, and whether there was one. -/
def abandon (s : EvaluationStore) (p : Producer) (id : UInt64) : Bool × EvaluationStore :=
  (s.slots.contains (p, id), { s with slots := s.slots.erase (p, id) })

end EvaluationStore

namespace Recording

/-- A step of recording, which may fail half-way. -/
abbrev Action := EStateM StudyError Recording

/-- A step of the archive as a step of recording. -/
def onArchive {α : Type} (act : Archive.Action α) : Action α := fun r =>
  match act r.archive with
  | .ok v a => .ok v { r with archive := a }
  | .error e a => .error (.storage e) { r with archive := a }

def updateStore (f : EvaluationStore → EvaluationStore) : Action Unit :=
  modify fun r => { r with store := f r.store }

def notify (n : StoreNotice) : Action Unit :=
  modify fun r => { r with notices := r.notices ++ [n] }

/-- Put down what is known of a producer. -/
def setProducer (p : Producer) (record : ProducerRecord) : Action Unit :=
  updateStore fun s => { s with producers := s.producers.insert p record }

def freeSlot (p : Producer) (id : UInt64) : Action Unit :=
  updateStore fun s => (s.abandon p id).2

/-- Store no further evaluations of a producer, with a notice the first time. -/
def disable (p : Producer) (record : ProducerRecord) (id : UInt64) (reason : String) :
    Action Unit := do
  unless record.disabled do
    notify (.drift p.text id reason)
    setProducer p { record with disabled := true }

/-! ## Allocating

The evaluation that a producer is first allocated by fixes its schema.  Where there are
identifiers of the producer, the datasets are compared with the schema and none is made; a
difference disables the producer. -/

/-- Make the datasets of a producer, or see whether those that are there fit; the answer is how they
do not. -/
def prepare (l : EvaluationLayout) (schema : EvaluationSchema) (inputs : Variables)
    (response : Response) : Action (Option String) := do
  let a := (← get).archive
  if a.contains l.ids then
    liftExcept (a.evaluationDrift l schema)
  else
    onArchive (Archive.createEvaluations l schema inputs response)
    return none

/-- Fix the schema of a producer by an evaluation, once. -/
def allocate (p : Producer) (inputs : Variables) (response : Response) (active : ActiveSet) :
    Action Unit := do
  let store := (← get).store
  if store.selects p && !store.producers.contains p then
    let schema ← liftExcept (EvaluationSchema.capture p inputs response active)
    let layout := EvaluationLayout.ofSchema p schema
    let mismatch ← prepare layout schema inputs response
    if let some reason := mismatch then
      notify (.unfitStorage p.text reason)
    setProducer p ⟨schema, layout, mismatch.isSome⟩

/-! ## The first step: variables

Drift is looked for before anything is appended: in the evaluation against the schema, and in the
extents of the datasets.  Then every dataset gets its row. -/

/-- Append the values of a block of variables. -/
def appendBlock (path : Path) (e : ElementType) (values : List e.Value) : Archive.Action Unit := do
  unless values.isEmpty do
    Archive.appendVector path e values

/-- Append an evaluation's inputs and reserve the rows for its response. -/
def appendInputs (l : EvaluationLayout) (schema : EvaluationSchema) (id : UInt64)
    (active : ActiveSet) (v : Variables) : Archive.Action Unit := do
  Archive.appendScalar l.ids .uint64 id
  appendBlock l.continuous .real v.continuous.values
  appendBlock l.integers .int64 v.integers.values
  appendBlock l.texts .text v.texts.values
  appendBlock l.reals .real v.reals.values
  unless schema.functions = 0 do
    Archive.appendVector l.requests .int32 (active.request.map fun r => Int32.ofNat r.toNat)
    let _ ← Archive.reserveRow l.functions
  if let some path := l.derivatives then
    Archive.appendVector path .int32 (schema.flags active.derivatives)
  for path in [l.gradients, l.hessians, l.metadata].reduceOption do
    let _ ← Archive.reserveRow path

/-- Store the inputs of an evaluation of a known producer. -/
def recordInputs (p : Producer) (record : ProducerRecord) (id : UInt64) (active : ActiveSet)
    (inputs : Variables) : Action Unit := do
  match record.schema.inputDrift? active inputs with
  | some reason => disable p record id reason
  | none =>
    liftExcept (p.checkAscending active.derivatives)
    let a := (← get).archive
    match ← liftExcept (a.evaluationDrift record.layout record.schema) with
    | some reason => disable p record id reason
    | none =>
      let row ← liftExcept (a.countRows record.layout.ids)
      onArchive (appendInputs record.layout record.schema id active inputs)
      updateStore fun s => { s with slots := s.slots.insert (p, id) row }

/-- Store the inputs of an evaluation. -/
def storeVariables (p : Producer) (id : UInt64) (active : ActiveSet) (inputs : Variables) :
    Action Unit := do
  let store := (← get).store
  if store.selects p then
    match store.producers.get? p with
    | none => throw (.noEntry p.text)
    | some record =>
      unless record.disabled do
        recordInputs p record id active inputs

/-! ## The second step: responses

The row that waits is looked up by the producer and the identifier of the evaluation.  It is given
up when the response does not fit, and before it is written; a response whose matrices have other
shapes than they should is refused, and the row goes on waiting. -/

/-- The refusal of a derivative of another shape than the derivative variables give. -/
def shapeError (l : EvaluationLayout) (path : Option Path) (expected actual : String) :
    StudyError :=
  .storage (.shapeMismatch (path.getD l.root) "store_response" expected actual)

/-- Refuse a response whose gradients are not as long as its derivative variables are many. -/
def checkGradients (l : EvaluationLayout) (r : Response) : List Nat → Except StudyError Unit
  | [] => .ok ()
  | i :: rest =>
    let width := r.active.derivatives.length
    let m := r.gradients
    if r.active.asksGradient i ∧ (m.rows ≠ width ∨ m.cols ≤ i) then
      .error (shapeError l l.gradients
        s!"gradient of function {i} over {width} derivative variables"
        s!"{m.rows}x{m.cols} gradient matrix")
    else checkGradients l r rest

/-- Refuse a response whose Hessians do not have a row and a column for each derivative variable. -/
def checkHessians (l : EvaluationLayout) (r : Response) : List Nat → Except StudyError Unit
  | [] => .ok ()
  | i :: rest =>
    let width := r.active.derivatives.length
    let found := r.hessians[i]?.map fun m => (m.rows, m.cols)
    if r.active.asksHessian i ∧ found ≠ some (width, width) then
      .error (shapeError l l.hessians s!"{width}x{width} Hessian of function {i}"
        (match found with
          | some (rows, cols) => s!"{rows}x{cols}"
          | none => "no Hessian"))
    else checkHessians l r rest

/-- The values of the functions, NaN where none was asked for. -/
def functionRow (r : Response) : List Binary64 :=
  r.values.mapIdx fun i v => if r.active.asksValue i then v else .nan

/-- The gradients that a schema has room for, a column for each of its functions, every entry at the
place of its variable and NaN elsewhere. -/
def gradientRows (schema : EvaluationSchema) (r : Response) : Matrix Binary64 :=
  let places := schema.places r.active.derivatives
  .ofFn schema.derivatives.length schema.gradientIndices.length fun p k =>
    let i := schema.gradientIndices[k]
    let entry := do
      let j ← places.findIdx? (· = some p.val)
      (← r.gradient? i)[j]?
    if r.active.asksGradient i then entry.getD .nan else .nan

/-- A Hessian with every entry at the places of its variables and NaN elsewhere. -/
def hessianOf (schema : EvaluationSchema) (r : Response) (i : Nat) : Matrix Binary64 :=
  let places := schema.places r.active.derivatives
  let width := schema.derivatives.length
  .ofFn width width fun p q =>
    let entry := do
      let a ← places.findIdx? (· = some p.val)
      let b ← places.findIdx? (· = some q.val)
      (← r.hessians[i]?).get? a b
    if r.active.asksHessian i then entry.getD .nan else .nan

/-- Write a response into its row. -/
def writeResponse (l : EvaluationLayout) (schema : EvaluationSchema) (r : Response) (row : Nat) :
    Archive.Action Unit := do
  unless schema.functions = 0 do
    Archive.setVector l.functions .real (functionRow r) row true
  if let some path := l.gradients then
    if schema.gradientIndices.any r.active.asksGradient then
      Archive.setMatrix path .real (gradientRows schema r) row true
  if let some path := l.hessians then
    if schema.hessianIndices.any r.active.asksHessian then
      Archive.setMatrices path .real (schema.hessianIndices.map (hessianOf schema r)) row false
  if let some path := l.metadata then
    unless r.metadata = [] do
      Archive.setVector path .real r.metadata row true

/-- Store the response of an evaluation whose row waits for it. -/
def recordResponse (p : Producer) (record : ProducerRecord) (id : UInt64) (row : Nat)
    (r : Response) : Action Unit := do
  match record.schema.responseDrift? r with
  | some reason =>
    freeSlot p id
    disable p record id reason
  | none =>
    liftExcept (p.checkAscending r.active.derivatives)
    liftExcept (checkGradients record.layout r record.schema.gradientIndices)
    liftExcept (checkHessians record.layout r record.schema.hessianIndices)
    freeSlot p id
    onArchive (writeResponse record.layout record.schema r row)

/-- Store the response of an evaluation; one that no row waits for is passed over. -/
def storeResponse (p : Producer) (id : UInt64) (r : Response) : Action Unit := do
  let store := (← get).store
  if store.selects p then
    match store.slots.get? (p, id) with
    | none => return
    | some row =>
      match store.producers.get? p with
      | none => throw (.noEntry p.text)
      | some record => recordResponse p record id row r

/-! ## Sources -/

/-- Link what something was made from below its group. -/
def declareSource (owner source : Source) : Action Unit :=
  onArchive <|
    Archive.createLink ((owner.root.join "sources").join source.linkName) source.root

end Recording
end StudyArchive
