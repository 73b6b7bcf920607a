import StudyArchive.StorageError
/-
# Why a study refuses a request

A study fails for reasons of its own, or because its archive does; a failure of the archive keeps
its code and its wording.
-/

namespace StudyArchive

/-- Why a request to a study fails. -/
inductive StudyError where
  | storage (e : StorageError)
  | noEntry (key : String)
  | outOfRange (key : String) (index size : Nat)
  /-- Derivative variables that are not strictly ascending. -/
  | unorderedDerivatives (producer : String) (ids : List Nat)
  | unknownVariableKind (name : String)
  /-- One value is asked of an array. -/
  | isArray (key : String)
  /-- A slot is asked of a single value. -/
  | notArray (key : String)
  /-- The rows of a dataset without axes are asked for: such a request has no answer. -/
  | uncountable (path : Path)
  deriving DecidableEq

namespace StudyError

/-- The stable code of an error. -/
def code : StudyError → String
  | storage e => e.code
  | noEntry .. => "E301"
  | outOfRange .. => "E302"
  | unorderedDerivatives .. => "E310"
  | unknownVariableKind .. => "E311"
  | isArray .. | notArray .. | uncountable .. => "E320"

/-- What an error says after its code. -/
def text : StudyError → String
  | storage e => e.text
  | noEntry key => s!"No results entry for key {key}"
  | outOfRange key index size => s!"Index {index} out of range for {key} (size {size})"
  | unorderedDerivatives producer ids =>
    s!"Derivative variables for {producer} must be strictly ascending, got {showExtents ids}"
  | unknownVariableKind name => s!"Unknown variable kind '{name}'"
  | isArray key => s!"Backend error: {key} is an array"
  | notArray key => s!"Backend error: {key} is not an array"
  | uncountable path => s!"Backend error: {path} has no rows"

def message (e : StudyError) : String := s!"{e.code}: {e.text}"

/-- Whether the archive is where an error comes from. -/
def fromStorage : StudyError → Bool
  | storage _ => true
  | _ => false

end StudyError
end StudyArchive
