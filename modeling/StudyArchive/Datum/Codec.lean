import StudyArchive.Codec.Text
import StudyArchive.Datum.Basic
/-
# Elements in bytes

Numbers take their fixed width, strings their length before them, arrays and records the encodings
of their parts without frames.  The type says how many bytes to read, so encodings of elements of
one type can be written one after the other and read back one by one.
-/

namespace StudyArchive.Datum

/-- A string with its length before it, as an element. -/
def encodeText (s : String) : Bytes :=
  let bytes := Bytes.ofText s
  Bytes.ofNat 4 bytes.length ++ bytes

/-- The bytes of a value as an element of an element type. -/
def encodeElement : Datum → ElementType → Except CodecFault Bytes
  | int v, .int32 =>
    if fitsInt32 v then .ok (Bytes.ofNat 4 v.toInt32.toUInt32.toNat) else .error .int32Overflow
  | int v, .int64 => .ok (Bytes.ofNat 8 v.toUInt64.toNat)
  | uint v, .uint64 => .ok (Bytes.ofNat 8 v.toNat)
  | real v, .real => .ok (Bytes.ofNat 8 v.bits.toNat)
  | text v, .text => .ok (encodeText v)
  | other, e => .error (.unencodable other.kind e.name)

/-- The bytes of values one after the other. -/
def encodeElements (e : ElementType) : List Datum → Except CodecFault Bytes
  | [] => .ok []
  | item :: rest => do
    let first ← item.encodeElement e
    let more ← encodeElements e rest
    return first ++ more

def encodeField (value : Datum) (f : Field) : Except CodecFault Bytes :=
  match f.length, value with
  | some _, array items => encodeElements f.element items
  | some _, _ => .error .arrayExpected
  | none, v => v.encodeElement f.element

/-- The bytes of a record's values; a value beyond the fields, like a field beyond the values, has
no bytes. -/
def encodeFields : List Datum → List Field → Except CodecFault Bytes
  | value :: values, f :: fields => do
    let first ← value.encodeField f
    let more ← encodeFields values fields
    return first ++ more
  | _, _ => .ok []

/-- The bytes of a value as an element of a type. -/
def encode (value : Datum) : DataType → Except CodecFault Bytes
  | .scalar e => value.encodeElement e
  | .compound fields =>
    match value with
    | record values => encodeFields values fields
    | _ => .error .recordExpected

def decodeElement : ElementType → Reader Datum
  | .int32 => do return int (UInt32.ofNat (← Reader.word 4)).toInt32.toInt64
  | .int64 => do return int (UInt64.ofNat (← Reader.word 8)).toInt64
  | .uint64 => do return uint (UInt64.ofNat (← Reader.word 8))
  | .real => do return real ⟨UInt64.ofNat (← Reader.word 8)⟩
  | .text => do return text (← Reader.text (← Reader.word 4))

def decodeField (f : Field) : Reader Datum :=
  match f.length with
  | some n => do return array (← (decodeElement f.element).times n)
  | none => decodeElement f.element

def decodeFields : List Field → Reader (List Datum)
  | [] => pure []
  | f :: rest => do
    let first ← decodeField f
    let more ← decodeFields rest
    return first :: more

def decode : DataType → Reader Datum
  | .scalar e => decodeElement e
  | .compound fields => do return record (← decodeFields fields)

end StudyArchive.Datum
