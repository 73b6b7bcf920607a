import StudyArchive.Archive.Value
import StudyArchive.Codec.Hex
import StudyArchive.Config.Study
import StudyArchive.Document.Basic
import StudyArchive.Evaluation.Producer
import StudyArchive.Evaluation.Response
import StudyArchive.Log.Record
import StudyArchive.Parameters.Basic
import StudyArchive.Results.Value
import StudyArchive.Variables.Basic
/-
# Values of documents

The values that documents from other programs tell.  An integer is a number or a string of digits,
and a real is a number or the hexadecimal text of its word.
-/

namespace StudyArchive.Document

/-- The value of a key, if it is there and not null. -/
def at? (d : Document) (key : String) : Option Document :=
  match d.get? key with
  | some null => none
  | value => value

/-- What a key tells, and a default where it tells nothing. -/
def valueAt {α : Type} (d : Document) (key : String) (read : Document → Option α) (default : α) :
    α :=
  ((d.at? key).bind read).getD default

def int? : Document → Option Int
  | int v => some v
  | text s => s.toInt?
  | _ => none

def nat? (d : Document) : Option Nat := d.int?.map Int.toNat

def real? : Document → Option Binary64
  | real v => some v
  | int v => some (.ofDecimal (v < 0) v.natAbs 0)
  | text s => do
    let word ← Bytes.ofHex? (String.ofList (s.toList.drop 2))
    return ⟨UInt64.ofNat (Bytes.toNat word.reverse)⟩
  | _ => none

/-- The items under a key, none where the key is absent. -/
def itemsAt {α : Type} (read : Document → Option α) (d : Document) (key : String) :
    Option (List α) :=
  match d.at? key with
  | some items => items.listOf? read
  | none => some []

def element? (d : Document) : Option ElementType := d.text?.bind ElementType.ofName?

def field? (d : Document) : Option Field := do
  return ⟨← (← d.at? "name").text?, ← (← d.at? "type").element?, (d.at? "len").bind nat?⟩

def type? (d : Document) : Option DataType :=
  match d with
  | text _ => d.element?.map .scalar
  | d => (d.itemsAt field? "fields").map .compound

mutual

/-- A datum, under a key that tells its sort. -/
def datum? : Document → Option Datum
  | object [(key, value)] =>
    match key with
    | "i" => value.int?.map fun v => .int (Int64.ofInt v)
    | "u" => value.nat?.map fun v => .uint (UInt64.ofNat v)
    | "r" => value.real?.map .real
    | "s" => value.text?.map .text
    | "a" => (dataOf? value).map .array
    | "rec" => (dataOf? value).map .record
    | _ => none
  | _ => none

/-- The data of a list. -/
def dataOf? : Document → Option (List Datum)
  | list items => data? items
  | _ => none

/-- Data, one by one. -/
def data? : List Document → Option (List Datum)
  | [] => some []
  | d :: rest => do return (← datum? d) :: (← data? rest)

end

/-- The value of an attribute; a count is an integer there. -/
def attr? (d : Document) : Option AttrValue :=
  match d.datum? with
  | some (.int v) => some (.int v)
  | some (.uint v) => some (.ofCount v.toNat)
  | some (.real v) => some (.real v)
  | some (.text v) => some (.text v)
  | _ => none

/-- An attribute: its label and its value. -/
def attribute? : Document → Option Attribute
  | list [label, value] => do return ⟨← label.text?, ← value.attr?⟩
  | _ => none

/-- A value of an element type. -/
def value? : (e : ElementType) → Document → Option e.Value
  | .int32, d => d.int?.map Int32.ofInt
  | .int64, d => d.int?.map Int64.ofInt
  | .uint64, d => d.nat?.map UInt64.ofNat
  | .real, d => d.real?
  | .text, d => d.text?

def matrix? {α : Type} (read : Document → Option α) (d : Document) : Option (Matrix α) := do
  let data ← d.itemsAt read "data"
  Matrix.ofRowMajor? (← (← d.at? "rows").nat?) (← (← d.at? "cols").nat?) data.toArray

def record? (d : Document) : Option Record := do
  let text (key : String) : Option String := (d.at? key).bind text?
  let path (key : String) : Option Path := (text key).map Path.ofText
  let nat (key : String) : Option Nat := (d.at? key).bind nat?
  match ← text "type" with
  | "CreateGroup" => return .createGroup (← path "path")
  | "CreateDataset" =>
    return .createDataset (← path "path") (← (← d.at? "dtype").type?) (← d.itemsAt nat? "dims")
      (d.valueAt "extensible" bool? false) (d.valueAt "chunk_rows" nat? 0)
      (← (← d.at? "fill").datum?)
  | "Extend" => return .extend (← path "path") (← nat "extent")
  | "Write" =>
    return .write (← path "path") (← d.itemsAt nat? "start") (← d.itemsAt nat? "count")
      (← Bytes.ofHex? (← text "payload"))
  | "SetAttribute" =>
    return .setAttribute (← path "path") (← text "name") (← (← d.at? "value").attr?)
  | "MarkScale" => return .markScale (← path "path") (← text "name")
  | "AttachScale" =>
    return .attachScale (← path "dataset") (← path "scale") (← text "label") (← nat "axis")
  | "SoftLink" => return .softLink (← path "link") (← path "target")
  | _ => none

def producer? : Document → Option Producer
  | object [("model", list [type, id])] => do return .model (← type.text?) (← id.text?)
  | object [("interface", list [id, owner])] => do
    return .interface (← id.text?) (← owner.text?) .simulation
  | object [("approx", list [id, owner])] => do
    return .interface (← id.text?) (← owner.text?) .approximation
  | _ => none

def source? : Document → Option Source
  | object [("method", id)] => id.text?.map .method
  | d => d.producer?.map .producer

def run? : Document → Option MethodRun
  | list [method, id, execution] => do
    return ⟨← method.text?, ← id.text?, ← execution.nat?⟩
  | _ => none

def mask? (d : Document) : Option UInt8 := d.nat?.map UInt8.ofNat

def activeSet? (d : Document) : Option ActiveSet := do
  return ⟨← d.itemsAt mask? "request", ← d.itemsAt nat? "dvv"⟩

/-- A response: room for what is asked for, with the parts that the document has put in. -/
def response? (d : Document) : Option Response := do
  let blank := Response.blank (← d.activeSet?) (← d.itemsAt text? "labels")
  let values ← (d.at? "values").mapM (listOf? real?)
  let gradients ← (d.at? "gradients").mapM (matrix? real?)
  let hessians ← (d.at? "hessians").mapM (listOf? (matrix? real?))
  return { blank with
    values := values.getD blank.values
    gradients := gradients.getD blank.gradients
    hessians := hessians.getD blank.hessians
    metadataLabels := ← d.itemsAt text? "metadata_labels"
    metadata := ← d.itemsAt real? "metadata" }

def int64? (d : Document) : Option Int64 := d.int?.map Int64.ofInt

/-- A result, under a key that tells its sort. -/
def result? : Document → Option ResultValue
  | object [("real", v)] => v.real?.map .real
  | object [("int", v)] => v.int64?.map .int
  | object [("str", v)] => v.text?.map .text
  | object [("reals", v)] => (v.listOf? real?).map .reals
  | object [("ints", v)] => (v.listOf? int64?).map .ints
  | object [("strs", v)] => (v.listOf? text?).map .texts
  | object [("real_matrix", v)] => (v.matrix? real?).map .realMatrix
  | object [("int_matrix", v)] => (v.matrix? int64?).map .intMatrix
  | object [("str_matrix", v)] => (v.matrix? text?).map .textMatrix
  | _ => none

def scale? (d : Document) : Option DimScale := do
  return {
    axis := ← (← d.at? "dim").nat?
    label := ← (← d.at? "label").text?
    data := ← ScaleData.ofValue? (← (← d.at? "data").result?)
    shared := d.valueAt "shared" bool? false }

/-- A parameter, under a key that tells its type. -/
def param? : Document → Option ParamValue
  | object [("real", v)] => v.real?.map .real
  | object [("int", v)] => v.int?.map fun v => .int (Int32.ofInt v)
  | object [("str", v)] => v.text?.map .text
  | object [("reals", v)] => (v.listOf? real?).map .reals
  | object [("ints", v)] => (v.listOf? fun d => d.int?.map Int32.ofInt).map .ints
  | object [("strs", v)] => (v.listOf? text?).map .texts
  | _ => none

def params? : Document → Option ParamRecord
  | object members =>
    members.foldlM (fun r (name, d) => do return r.insert name (← param? d)) (∅ : ParamRecord)
  | _ => none

/-- The variables of a block: each its label, number, kind and value; a kind that is not known is
refused. -/
def block? {α : Type} (read : Document → Option α) :
    List Document → Option (Except StudyError (List (Variable α)))
  | [] => some (.ok [])
  | list [label, id, kind, value] :: rest => do
    let label ← label.text?
    let id ← id.nat?
    let name ← kind.text?
    let value ← read value
    match VariableKind.ofLabel? name with
    | none => return .error (.unknownVariableKind name)
    | some kind =>
      return (← block? read rest).map ((⟨label, UInt64.ofNat id, kind, value⟩ : Variable α) :: ·)
  | _ => none

def variables? (d : Document) : Option (Except StudyError Variables) := do
  let block {α : Type} (read : Document → Option α) (key : String) :
      Option (Except StudyError (VariableBlock α)) := do
    return (← block? read (← d.itemsAt some key)).map VariableBlock.ofList
  let continuous ← block real? "continuous"
  let integers ← block int64? "discrete_int"
  let texts ← block text? "discrete_string"
  let reals ← block real? "discrete_real"
  return do return ⟨← continuous, ← integers, ← texts, ← reals⟩

def modelSelection (d : Document) : ModelSelection :=
  d.valueAt "models" (named? ModelSelection.every (·.name)) .topMethod

def interfaceSelection (d : Document) : InterfaceSelection :=
  d.valueAt "interfaces" (named? InterfaceSelection.every (·.name)) .simulation

/-- How a container is opened; what the document leaves open stays as it is, and a revision counts
only beside a version. -/
def storageConfig (d : Document) (c : StorageConfig) : StorageConfig where
  path := d.valueAt "path" text? c.path
  mode := d.valueAt "mode" (named? FileMode.all (·.name)) c.mode
  chunkBytes := d.valueAt "chunk_bytes" nat? c.chunkBytes
  bufferSize := d.valueAt "buffer_size" nat? c.bufferSize
  syncOnFlush := d.valueAt "sync_on_flush" bool? c.syncOnFlush
  toolVersion := d.valueAt "tool_version" text? c.toolVersion
  toolRevision :=
    if (d.at? "tool_version").isSome then d.valueAt "tool_revision" text? "" else c.toolRevision

/-- The configuration of a study around that of its archive. -/
def studyConfig (d : Document) (storage : StorageConfig) : StudyConfig where
  storage := d.storageConfig storage
  models := d.modelSelection
  interfaces := d.interfaceSelection
  archived := d.valueAt "container" bool? true
  remembered := d.valueAt "memory" bool? false

end StudyArchive.Document
