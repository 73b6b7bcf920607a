import StudyArchive.Config.Study
import StudyArchive.Document.Encode
import StudyArchive.Evaluation.Producer
/-
# Documents of identities

Identities, active sets, attributes and selections as they stand in JSON files.  A structure is an
object, which may have further keys, or the list of its values in order; a name stands alone or as
the one key of an object whose value is null.
-/

namespace StudyArchive

def InterfaceKind.name : InterfaceKind → String
  | simulation => "simulation"
  | approximation => "approximation"

def InterfaceKind.all : List InterfaceKind := [simulation, approximation]

namespace Document

/-- The values of the keys of a structure. -/
def structure? (keys : List String) : Document → Option (List Document)
  | list items => if items.length = keys.length then some items else none
  | object members => keys.mapM (object members).get?
  | _ => none

/-- A number of a machine word. -/
def word? (d : Document) : Option Nat := d.natBelow? (Bytes.span 8)

/-- The value of an attribute: a number that is no integer of 64 bits is a real. -/
def plainAttr? : Document → Option AttrValue
  | int v =>
    if Int64.minValue.toInt ≤ v ∧ v ≤ Int64.maxValue.toInt then some (.int (Int64.ofInt v))
    else some (.real (.ofDecimal (v < 0) v.natAbs 0))
  | real v => some (.real v)
  | text s => some (.text s)
  | _ => none

def plainAttribute? (d : Document) : Option Attribute := do
  match ← d.structure? ["label", "value"] with
  | [label, value] => return ⟨← label.text?, ← value.plainAttr?⟩
  | _ => none

def plainRun? (d : Document) : Option MethodRun := do
  match ← d.structure? ["method_name", "method_id", "execution"] with
  | [method, id, execution] => return ⟨← method.text?, ← id.text?, ← execution.word?⟩
  | _ => none

/-- The kind of an interface beside the sort of its producer, where the value that goes with the
name may also be an object without members. -/
def plainKind? : Document → Option InterfaceKind
  | object [(s, object [])] => (text s).named? InterfaceKind.all (·.name)
  | d => d.named? InterfaceKind.all (·.name)

/-- A producer whose sort is known. -/
def taggedProducer? (sort : String) (d : Document) : Option Producer := do
  match sort with
  | "model" =>
    match ← d.structure? ["model_type", "model_id"] with
    | [type, id] => return .model (← type.text?) (← id.text?)
    | _ => none
  | "interface" =>
    match ← d.structure? ["interface_id", "model_id", "kind"] with
    | [id, owner, kind] =>
      return .interface (← id.text?) (← owner.text?) (← kind.plainKind?)
    | _ => none
  | _ => none

/-- A producer: its sort is a member beside the others, or comes first. -/
def plainProducer? : Document → Option Producer
  | list (sort :: rest) => do (list rest).taggedProducer? (← sort.text?)
  | object members => do
    (object members).taggedProducer? (← (← (object members).get? "producer").text?)
  | _ => none

def plainActiveSet? (d : Document) : Option ActiveSet := do
  match ← d.structure? ["request", "derivative_vars"] with
  | [request, derivatives] =>
    let request ← request.listOf? (natBelow? 256)
    return ⟨request.map UInt8.ofNat, ← derivatives.listOf? word?⟩
  | _ => none

def ofPlainRun (r : MethodRun) : Document :=
  object [("method_name", text r.method), ("method_id", text r.id),
    ("execution", int r.execution)]

def ofPlainProducer : Producer → Document
  | .model type id =>
    object [("producer", text "model"), ("model_type", text type), ("model_id", text id)]
  | .interface id owner kind =>
    object [("producer", text "interface"), ("interface_id", text id), ("model_id", text owner),
      ("kind", text kind.name)]

def ofPlainActiveSet (s : ActiveSet) : Document :=
  object [("request", ofNats (s.request.map UInt8.toNat)),
    ("derivative_vars", list (s.derivatives.map fun (n : Nat) => int n))]

end Document
end StudyArchive
