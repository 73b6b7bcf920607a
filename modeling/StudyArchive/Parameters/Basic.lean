import StudyArchive.Datum.Basic
import StudyArchive.SortedMap
import StudyArchive.Variables.Kind
/-
# Parameters of variables

The distribution of a variable, or the set that its values come from, is told by named parameters.
Which parameters there are depends on the kind of the variable.
-/

namespace StudyArchive

/-- The types of parameters. -/
inductive ParamType where
  | real
  | int
  | text
  | reals
  | ints
  | texts
  deriving DecidableEq, Repr

namespace ParamType

def name : ParamType → String
  | real => "Real"
  | int => "Int"
  | text => "Str"
  | reals => "RealArray"
  | ints => "IntArray"
  | texts => "StrArray"

/-- The type of the elements. -/
def element : ParamType → ElementType
  | real | reals => .real
  | int | ints => .int32
  | text | texts => .text

def isArray : ParamType → Bool
  | real | int | text => false
  | reals | ints | texts => true

end ParamType

inductive ParamValue where
  | real (v : Binary64)
  | int (v : Int32)
  | text (v : String)
  | reals (l : List Binary64)
  | ints (l : List Int32)
  | texts (l : List String)
  deriving DecidableEq

namespace ParamValue

def type : ParamValue → ParamType
  | real _ => .real
  | int _ => .int
  | text _ => .text
  | reals _ => .reals
  | ints _ => .ints
  | texts _ => .texts

/-- The elements of a value. -/
def data : ParamValue → List Datum
  | real v => [.real v]
  | int v => [.int v.toInt64]
  | text v => [.text v]
  | reals l => l.map .real
  | ints l => l.map fun v => .int v.toInt64
  | texts l => l.map .text

/-- The length of an array; a single value counts nothing. -/
def arrayLength : ParamValue → Nat
  | real _ | int _ | text _ => 0
  | reals l => l.length
  | ints l => l.length
  | texts l => l.length

end ParamValue

/-- The parameters of one variable, by name. -/
abbrev ParamRecord := SortedMap String ParamValue

/-- The length of the longest array of a record. -/
def ParamRecord.longest (r : ParamRecord) : Nat := (r.values.map ParamValue.arrayLength).foldr max 0

/-- The parameters of a producer's variables. -/
structure VariableParameters where
  /-- The records in the order in which they were given. -/
  entries : List (VariableKind × ParamRecord) := []
  deriving DecidableEq

namespace VariableParameters

def records (p : VariableParameters) (k : VariableKind) : List ParamRecord :=
  (p.entries.filter fun entry => entry.1 = k).map (·.2)

/-- The kinds that have records, in the order of the kinds. -/
def kinds (p : VariableParameters) : List VariableKind :=
  VariableKind.all.filter fun k => p.records k ≠ []

def isEmpty (p : VariableParameters) : Bool := p.entries.isEmpty

end VariableParameters
end StudyArchive
