import StudyArchive.Archive.Value
import StudyArchive.Codec.Hex
import StudyArchive.Config.Study
import StudyArchive.Document.Basic
import StudyArchive.Evaluation.Schema
import StudyArchive.Log.Frame
import StudyArchive.Parameters.Fields
import StudyArchive.Results.Value
/-
# Documents of values

How values are told to other programs.  Readers of JSON may hold every number as a real: an integer
beyond 53 bits is therefore a string, and a real is the hexadecimal text of its word, so that no bit
of it is lost.
-/

namespace StudyArchive.Document

/-- An integer; a large one is a string. -/
def ofInt (v : Int) : Document := if v.natAbs < 2 * Binary64.unit then int v else text (toString v)

/-- A natural number; a large one is a string. -/
def ofNat (v : Nat) : Document := ofInt v

/-- A real, as the hexadecimal text of its word. -/
def ofReal (v : Binary64) : Document :=
  text ("0x" ++ Bytes.toHex (Bytes.ofNat 8 v.bits.toNat).reverse)

def ofList {α : Type} (f : α → Document) (l : List α) : Document := list (l.map f)

def ofNats (l : List Nat) : Document := ofList ofNat l

def ofTexts (l : List String) : Document := ofList text l

def ofOption {α : Type} (f : α → Document) : Option α → Document
  | some v => f v
  | none => null

def ofPath (p : Path) : Document := text p.text

def ofElement (e : ElementType) : Document := text e.name

def ofField (f : Field) : Document :=
  object [("name", text f.name), ("type", ofElement f.element), ("len", ofOption ofNat f.length)]

def ofType : DataType → Document
  | .scalar e => ofElement e
  | .compound fields => object [("fields", ofList ofField fields)]

mutual

/-- A datum, under a key that tells its sort. -/
def ofDatum : Datum → Document
  | .int v => object [("i", ofInt v.toInt)]
  | .uint v => object [("u", ofNat v.toNat)]
  | .real v => object [("r", ofReal v)]
  | .text v => object [("s", text v)]
  | .array items => object [("a", list (ofData items))]
  | .record values => object [("rec", list (ofData values))]

def ofData : List Datum → List Document
  | [] => []
  | v :: rest => ofDatum v :: ofData rest

end

def ofAttr : AttrValue → Document
  | .int v => ofDatum (.int v)
  | .real v => ofDatum (.real v)
  | .text v => ofDatum (.text v)

def ofAttribute (a : Attribute) : Document := list [text a.label, ofAttr a.value]

def ofValue : (e : ElementType) → e.Value → Document
  | .int32, v => ofInt (Int32.toInt v)
  | .int64, v => ofInt (Int64.toInt v)
  | .uint64, v => ofNat (UInt64.toNat v)
  | .real, v => ofReal v
  | .text, v => text v

def ofMatrix {α : Type} (f : α → Document) (m : Matrix α) : Document :=
  object [("rows", ofNat m.rows), ("cols", ofNat m.cols), ("data", ofList f m.toRowMajor)]

def ofRecord (r : Record) : Document :=
  let members := match r with
    | .createGroup path => [("path", ofPath path)]
    | .createDataset path type dims extensible chunkRows fill =>
      [("path", ofPath path), ("dtype", ofType type), ("dims", ofNats dims),
        ("extensible", bool extensible), ("chunk_rows", ofNat chunkRows), ("fill", ofDatum fill)]
    | .extend path extent => [("path", ofPath path), ("extent", ofNat extent)]
    | .write path start count payload =>
      [("path", ofPath path), ("start", ofNats start), ("count", ofNats count),
        ("payload", text payload.toHex)]
    | .setAttribute path name value =>
      [("path", ofPath path), ("name", text name), ("value", ofAttr value)]
    | .markScale path name => [("path", ofPath path), ("name", text name)]
    | .attachScale dataset scale label axis =>
      [("dataset", ofPath dataset), ("scale", ofPath scale), ("label", text label),
        ("axis", ofNat axis)]
    | .softLink link target => [("link", ofPath link), ("target", ofPath target)]
  object (("type", text r.kind.name) :: members)

def ofHeader (h : Header) : Document :=
  object [("magic", ofNat h.magic.toNat), ("version", ofNat h.format.toNat),
    ("flags", ofNat h.flags.toNat), ("run_id", text (Bytes.toHex h.runId.toList)),
    ("created_at", ofNat h.createdAt.toNat), ("schema", text h.schema.text),
    ("reserved", text (Bytes.toHex h.reserved.toList)),
    ("validate", ofOption (fun f => text f.message) h.fault?)]

/-- A result, under a key that tells its sort. -/
def ofResult : ResultValue → Document
  | .real v => object [("real", ofReal v)]
  | .int v => object [("int", ofInt v.toInt)]
  | .text v => object [("str", text v)]
  | .reals l => object [("reals", ofList ofReal l)]
  | .ints l => object [("ints", ofList (fun v => ofInt v.toInt) l)]
  | .texts l => object [("strs", ofTexts l)]
  | .realMatrix m => object [("real_matrix", ofMatrix ofReal m)]
  | .intMatrix m => object [("int_matrix", ofMatrix (fun v => ofInt v.toInt) m)]
  | .textMatrix m => object [("str_matrix", ofMatrix text m)]

def domainName : VariableDomain → String
  | .continuous => "Continuous"
  | .integer => "DiscreteInt"
  | .text => "DiscreteString"
  | .real => "DiscreteReal"

/-- A kind of variables and the parameters that it has. -/
def ofKind (k : VariableKind) : Document :=
  object [("name", text k.name), ("label", text k.label), ("domain", text (domainName k.domain)),
    ("schema", ofList (fun f => list [text f.name, text f.type.name, ofElement f.type.element,
      bool f.type.isArray]) k.fields)]

def ofBlock {α : Type} (f : α → Document) (b : VariableBlock α) : Document :=
  object [("labels", ofTexts b.labels), ("ids", ofNats (b.ids.map UInt64.toNat)),
    ("kinds", ofTexts (b.kinds.map VariableKind.label)), ("values", ofList f b.values),
    ("len", ofNat b.length), ("empty", bool (b.length = 0))]

def ofVariables (v : Variables) : Document :=
  object [("shape", ofNats v.counts), ("len", ofNat v.length), ("empty", bool (v.length = 0)),
    ("continuous", ofBlock ofReal v.continuous),
    ("discrete_int", ofBlock (fun v => ofInt v.toInt) v.integers),
    ("discrete_string", ofBlock text v.texts), ("discrete_real", ofBlock ofReal v.reals)]

def ofResponse (r : Response) : Document :=
  object [("request", ofNats (r.active.request.map UInt8.toNat)),
    ("dvv", ofNats r.active.derivatives), ("labels", ofTexts r.labels),
    ("num_functions", ofNat r.functions), ("values", ofList ofReal r.values),
    ("gradients", ofMatrix ofReal r.gradients), ("hessians", ofList (ofMatrix ofReal) r.hessians),
    ("metadata_labels", ofTexts r.metadataLabels), ("metadata", ofList ofReal r.metadata)]

def ofSchema (s : EvaluationSchema) : Document :=
  object [("num_functions", ofNat s.functions), ("gradients", ofNats s.gradientIndices),
    ("hessians", ofNats s.hessianIndices), ("dvv", ofNats s.derivatives),
    ("num_metadata", ofNat s.metadata), ("variable_shape", ofNats s.variableCounts)]

def ofStorageConfig (c : StorageConfig) : Document :=
  object [("path", text c.path), ("mode", text c.mode.name), ("chunk_bytes", ofNat c.chunkBytes),
    ("buffer_size", ofNat c.bufferSize), ("sync_on_flush", bool c.syncOnFlush),
    ("tool_version", text c.toolVersion), ("tool_revision", text c.toolRevision)]

def ofStudyConfig (c : StudyConfig) : Document :=
  object [("storage", ofStorageConfig c.storage), ("models", text c.models.name),
    ("interfaces", text c.interfaces.name), ("container", bool c.archived),
    ("memory", bool c.remembered)]

end StudyArchive.Document
