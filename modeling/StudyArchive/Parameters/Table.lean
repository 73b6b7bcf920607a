import StudyArchive.Parameters.Fields
import StudyArchive.StorageError
/-
# Tables of parameters

The records of a kind are laid out as a table of compound records, one for each variable.  Arrays of
different lengths are padded to the longest one; a first column then tells how many elements the
record has.  What a record does not say is filled with a value that stands for nothing.
-/

namespace StudyArchive

/-- The records of a kind, laid out for storage. -/
structure ParamTable where
  fields : List Field
  rows : List Datum
  deriving DecidableEq

namespace ParamTable

/-- The operation that a refusal names. -/
def operation : String := "store_variable_parameters"

/-- What stands for nothing: NaN, the greatest integer of 32 bits, or the empty text. -/
def missing : ElementType → Datum
  | .real => .real .nan
  | .text => .text ""
  | .int32 | .int64 | .uint64 => .int 2147483647

/-- The number of elements that every array of a table has room for. -/
def width (records : List ParamRecord) : Nat :=
  max ((records.map ParamRecord.longest).foldr max 0) 1

/-- A list filled up to a length, or cut there. -/
def pad (width : Nat) (filling : Datum) (items : List Datum) : List Datum :=
  items.take width ++ List.replicate (width - items.length) filling

def column (width : Nat) (f : ParamField) : Field :=
  ⟨f.name, f.type.element, if f.type.isArray then some width else none⟩

/-- The columns of a kind's table. -/
def columns (k : VariableKind) (width : Nat) : List Field :=
  let counted := k.fields.map (column width)
  if k.hasArrays then ⟨"num_elements", .int32, none⟩ :: counted else counted

/-- The elements of a parameter in a table: an array padded, a single value as it is. -/
def cell (width : Nat) (t : ParamType) (data : List Datum) : Datum :=
  if t.isArray then .array (pad width (missing t.element) data)
  else data.head?.getD (missing t.element)

/-- The cells of a record, parameter after parameter. -/
def cells (path : Path) (width : Nat) (r : ParamRecord) :
    List ParamField → Except StorageError (List Datum)
  | [] => .ok []
  | f :: rest =>
    match r.get? f.name with
    | none => do return cell width f.type [] :: (← cells path width r rest)
    | some v =>
      if v.type = f.type then do return cell width f.type v.data :: (← cells path width r rest)
      else .error (.typeMismatch (path.join f.name) operation f.type.name v.type.name)

def row (path : Path) (k : VariableKind) (width : Nat) (r : ParamRecord) :
    Except StorageError Datum := do
  if let some name := r.keys.find? fun name => !k.fields.any (·.name = name) then
    throw (.notFound (path.join name) operation)
  let cells ← cells path width r k.fields
  return .record (if k.hasArrays then .int (Int64.ofNat r.longest) :: cells else cells)

/-- The rows of records. -/
def rowsOf (path : Path) (k : VariableKind) (width : Nat) :
    List ParamRecord → Except StorageError (List Datum)
  | [] => .ok []
  | r :: rest => do
    let first ← row path k width r
    return first :: (← rowsOf path k width rest)

/-- The table of a kind's records, to be stored at a path. -/
def build (path : Path) (k : VariableKind) (records : List ParamRecord) :
    Except StorageError ParamTable := do
  let width := width records
  return ⟨columns k width, ← rowsOf path k width records⟩

end ParamTable
end StudyArchive
