import StudyArchive.Binary64.Basic
import StudyArchive.Variables.Kind
/-
# Variables

The variables of one evaluation, one block for each domain.  A block keeps the values, labels,
identifiers and kinds of its variables in lists of their own.  Built from variables, the lists are
equally long (`VariableBlock.ofList`); nothing else makes them so.
-/

namespace StudyArchive

/-- A variable and its value in one evaluation. -/
structure Variable (α : Type) where
  label : String
  /-- The number of the variable in its study. -/
  id : UInt64
  kind : VariableKind
  value : α
  deriving DecidableEq

/-- The variables of one domain. -/
structure VariableBlock (α : Type) where
  values : List α := []
  labels : List String := []
  ids : List UInt64 := []
  kinds : List VariableKind := []
  deriving DecidableEq

namespace VariableBlock

variable {α : Type}

def length (b : VariableBlock α) : Nat := b.values.length

def ofList (l : List (Variable α)) : VariableBlock α :=
  ⟨l.map (·.value), l.map (·.label), l.map (·.id), l.map (·.kind)⟩

end VariableBlock

/-- The variables of one evaluation, by domain. -/
structure Variables where
  continuous : VariableBlock Binary64 := {}
  integers : VariableBlock Int64 := {}
  texts : VariableBlock String := {}
  reals : VariableBlock Binary64 := {}
  deriving DecidableEq

namespace Variables

instance : Inhabited Variables := ⟨{}⟩

/-- The numbers of variables of the blocks, in order. -/
def counts (v : Variables) : List Nat :=
  [v.continuous.length, v.integers.length, v.texts.length, v.reals.length]

def length (v : Variables) : Nat :=
  v.continuous.length + v.integers.length + v.texts.length + v.reals.length

end Variables
end StudyArchive
