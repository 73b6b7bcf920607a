import StudyArchive.Archive.Value
import StudyArchive.Binary64.Decimal
import StudyArchive.Matrix
import StudyArchive.Results.MethodRun
/-
# Results of methods

A result is a number or a string, a vector of them or a matrix of them.  The dimensions of a vector
or matrix may be labelled by scales.
-/

namespace StudyArchive

/-- What a method found. -/
inductive ResultValue where
  | real (v : Binary64)
  | int (v : Int64)
  | text (v : String)
  | reals (l : List Binary64)
  | ints (l : List Int64)
  | texts (l : List String)
  | realMatrix (m : Matrix Binary64)
  | intMatrix (m : Matrix Int64)
  | textMatrix (m : Matrix String)
  deriving DecidableEq

namespace ResultValue

def element : ResultValue → ElementType
  | real _ | reals _ | realMatrix _ => .real
  | int _ | ints _ | intMatrix _ => .int64
  | text _ | texts _ | textMatrix _ => .text

/-- What sort of value a result is. -/
def kind : ResultValue → String
  | real _ => "real"
  | int _ => "int"
  | text _ => "string"
  | reals _ => "real vector"
  | ints _ => "int vector"
  | texts _ => "string vector"
  | realMatrix _ => "real matrix"
  | intMatrix _ => "int matrix"
  | textMatrix _ => "string matrix"

def rank : ResultValue → Nat
  | real _ | int _ | text _ => 0
  | reals _ | ints _ | texts _ => 1
  | realMatrix _ | intMatrix _ | textMatrix _ => 2

def showInt (v : Int64) : String := toString v.toInt

/-- The texts of values on one line. -/
def showRow {α : Type} (f : α → String) (l : List α) : String := " ".intercalate (l.map f)

/-- The texts of a matrix, row under row. -/
def showMatrix {α : Type} (f : α → String) (m : Matrix α) : String :=
  "\n".intercalate (m.rowList.map (showRow f))

def render : ResultValue → String
  | real v => v.text
  | int v => showInt v
  | text v => v
  | reals l => showRow Binary64.text l
  | ints l => showRow showInt l
  | texts l => showRow (fun s => s) l
  | realMatrix m => showMatrix Binary64.text m
  | intMatrix m => showMatrix showInt m
  | textMatrix m => showMatrix (fun s => s) m

end ResultValue

/-- The entries of a scale. -/
inductive ScaleData where
  | vector (e : ElementType) (values : List e.Value)
  | matrix (e : ElementType) (values : Matrix e.Value)

/-- A scale that labels a dimension of a result. -/
structure DimScale where
  /-- The dimension. -/
  axis : Nat
  label : String
  data : ScaleData
  /-- Whether the scale belongs to the execution, for all its results to use. -/
  shared : Bool

/-- Where a scale of a result lies. -/
def DimScale.path (s : DimScale) (r : MethodRun) (result : Path) : Path :=
  (if s.shared then r.path else result).scaleMirror.join s.label

/-- The entries of a vector or a matrix, as those of a scale. -/
def ScaleData.ofValue? : ResultValue → Option ScaleData
  | .reals l => some (.vector .real l)
  | .ints l => some (.vector .int64 l)
  | .texts l => some (.vector .text l)
  | .realMatrix m => some (.matrix .real m)
  | .intMatrix m => some (.matrix .int64 m)
  | .textMatrix m => some (.matrix .text m)
  | .real _ | .int _ | .text _ => none

end StudyArchive
