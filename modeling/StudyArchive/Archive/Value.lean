import StudyArchive.Datum.Basic
/-
# Typed elements

The values of each element type, and their places among the data: `toDatum` never fails, and
`ofDatum?` takes exactly the data that are elements of the type.
-/

namespace StudyArchive.ElementType

/-- The values of an element type. -/
def Value : ElementType → Type
  | int32 => Int32
  | int64 => Int64
  | uint64 => UInt64
  | real => Binary64
  | text => String

instance : (e : ElementType) → DecidableEq e.Value
  | int32 => inferInstanceAs (DecidableEq Int32)
  | int64 => inferInstanceAs (DecidableEq Int64)
  | uint64 => inferInstanceAs (DecidableEq UInt64)
  | real => inferInstanceAs (DecidableEq Binary64)
  | text => inferInstanceAs (DecidableEq String)

def toDatum : (e : ElementType) → e.Value → Datum
  | int32, v => .int (Int32.toInt64 v)
  | int64, v => .int v
  | uint64, v => .uint v
  | real, v => .real v
  | text, v => .text v

/-- The value that a datum is. -/
def ofDatum? : (e : ElementType) → Datum → Option e.Value
  | int32, .int v => if Datum.fitsInt32 v then some v.toInt32 else none
  | int64, .int v => some v
  | uint64, .uint v => some v
  | real, .real v => some v
  | text, .text v => some v
  | _, _ => none

end StudyArchive.ElementType
