import StudyArchive.Archive.Write
import StudyArchive.Results.Request
/-
# Results in an archive

Results lie below the group of their execution, each a dataset of its own size; room for a result
that comes piece by piece is a dataset filled with missing values.
-/

namespace StudyArchive

/-- An archive, and the methods whose groups were made in it. -/
structure Shelf where
  archive : Archive
  known : List String

namespace Shelf

/-- A step that puts results into an archive, and may fail half-way. -/
abbrev Action := EStateM StorageError Shelf

/-- A step of the archive as a step of the shelf. -/
def onArchive {α : Type} (act : Archive.Action α) : Action α := fun s =>
  match act s.archive with
  | .ok v a => .ok v { s with archive := a }
  | .error e a => .error e { s with archive := a }

/-- Make the group of a method that is seen for the first time. -/
def meet (r : MethodRun) : Action Unit := do
  unless r.id ∈ (← get).known do
    modify fun s => { s with known := s.known ++ [r.id] }
    onArchive (Archive.createGroup r.methodPath)
    onArchive (Archive.setAttribute r.methodPath "method_name" (.text r.method))

/-- Store a value as a dataset without axes. -/
def putScalar (path : Path) (e : ElementType) (v : e.Value) : Archive.Action Unit := do
  Archive.createFixed path e [] none
  Archive.writeScalar path e v

/-- Store values as a dataset of just their number. -/
def putVector (path : Path) (e : ElementType) (values : List e.Value) : Archive.Action Unit := do
  Archive.createFixed path e [values.length] none
  unless values.isEmpty do
    Archive.writeVector path e values

/-- Store a matrix as a dataset of just its size. -/
def putMatrix (path : Path) (e : ElementType) (m : Matrix e.Value) (transpose : Bool) :
    Archive.Action Unit := do
  Archive.createFixed path e (Archive.diskShape m transpose) none
  unless m.isEmpty do
    Archive.writeMatrix path e m transpose

def putValue (path : Path) (transpose : Bool) : ResultValue → Archive.Action Unit
  | .real v => putScalar path .real v
  | .int v => putScalar path .int64 v
  | .text v => putScalar path .text v
  | .reals l => putVector path .real l
  | .ints l => putVector path .int64 l
  | .texts l => putVector path .text l
  | .realMatrix m => putMatrix path .real m transpose
  | .intMatrix m => putMatrix path .int64 m transpose
  | .textMatrix m => putMatrix path .text m transpose

/-- Attach a scale to a dimension of a result, and store it before if nothing is in its place. -/
def putScale (r : MethodRun) (result : Path) (s : DimScale) : Archive.Action Unit := do
  let path := s.path r result
  unless (← get).contains path do
    match s.data with
    | .vector e values => putVector path e values
    | .matrix e values => putMatrix path e values false
  Archive.attachScale result path s.label s.axis

/-- Set the attributes of an object. -/
def describe (path : Path) (attributes : List Attribute) : Archive.Action Unit :=
  attributes.forM fun a => Archive.setAttribute path a.label a.value

/-- Label and describe a result. -/
def annotate (r : MethodRun) (path : Path) (scales : List DimScale)
    (attributes : List Attribute) : Archive.Action Unit := do
  scales.forM (putScale r path)
  describe path attributes

/-- What fills a cell until a result comes; reals are missing. -/
def filling (e : ElementType) : Option Datum :=
  if e = .real then some (.real .nan) else none

/-- Fill part of a result that room was kept for. -/
def fillPart (path : Path) (index : Nat) (row : Bool) : ResultValue → Archive.Action Unit
  | .real v => Archive.setScalar path .real v index
  | .int v => Archive.setScalar path .int64 v index
  | .text v => Archive.setScalar path .text v index
  | .reals l => Archive.setVector path .real l index row
  | .ints l => Archive.setVector path .int64 l index row
  | .texts l => Archive.setVector path .text l index row
  | value => throw (.unsupportedType path "insert_into" value.kind)

/-- Serve a request; arrays of slots are not kept in archives. -/
def serve : ResultRequest → Action Unit
  | .insert r location value scales attributes transpose => do
    meet r
    let path := r.resultPath location
    onArchive (putValue path transpose value)
    onArchive (annotate r path scales attributes)
  | .reserve r location e dims scales attributes => do
    meet r
    let path := r.resultPath location
    onArchive (Archive.createEmptyOf path (.scalar e) dims none (filling e))
    onArchive (annotate r path scales attributes)
  | .fill r location value index row => onArchive (fillPart (r.resultPath location) index row value)
  | .reserveArray .. | .fillArray .. => return
  | .describeMethod r attributes => do
    meet r
    onArchive (describe r.methodPath attributes)
  | .describeExecution r attributes => do
    meet r
    onArchive (Archive.createGroup r.path)
    onArchive (describe r.path attributes)
  | .describeResult r location attributes => onArchive (describe (r.resultPath location) attributes)
  | .describeStudy attributes => onArchive (describe .root attributes)
  | .flush => onArchive Archive.flush

end Shelf
end StudyArchive
