import StudyArchive.Codec.Checksum
import StudyArchive.Datum.Codec
import StudyArchive.Log.Record
/-
# Framed records

A frame is the number of its bytes, the checksum of its payload, the byte of the record's kind and
the payload.  A payload lists the fields of its record; strings and lists carry their lengths.
-/

namespace StudyArchive

namespace Frame

/-- The number of bytes before the payload. -/
def overhead : Nat := 9

/-- The byte that announces a list of fields in place of an element type. -/
def compoundTag : Nat := 0xFF

/-! ## Payload fields, written

Lengths take 32 bits and extents 64; what has no room there cannot be written. -/

/-- A length in 32 bits. -/
def putLength (n : Nat) : Except CodecFault Bytes :=
  if n < Bytes.span 4 then .ok (Bytes.ofNat 4 n) else .error (.tooLong n)

/-- An extent in 64 bits. -/
def putExtent (n : Nat) : Except CodecFault Bytes :=
  if n < Bytes.span 8 then .ok (Bytes.ofNat 8 n) else .error (.tooLong n)

/-- A string after its length. -/
def putText (s : String) : Except CodecFault Bytes := do
  let bytes := Bytes.ofText s
  return (← putLength bytes.length) ++ bytes

def putPath (p : Path) : Except CodecFault Bytes := putText p.text

/-- Parts one after the other. -/
def putAll {α : Type} (put : α → Except CodecFault Bytes) : List α → Except CodecFault Bytes
  | [] => .ok []
  | x :: rest => do return (← put x) ++ (← putAll put rest)

/-- Extents after their number. -/
def putExtents (dims : List Nat) : Except CodecFault Bytes := do
  return (← putLength dims.length) ++ (← putAll putExtent dims)

/-- A field of a record type; no length and the length 0 are written alike. -/
def putField (f : Field) : Except CodecFault Bytes := do
  return (← putText f.name) ++ Bytes.ofNat 1 f.element.tag ++ (← putLength (f.length.getD 0))

def putType : DataType → Except CodecFault Bytes
  | .scalar e => .ok (Bytes.ofNat 1 e.tag)
  | .compound fields => do
    return Bytes.ofNat 1 compoundTag ++ (← putLength fields.length) ++ (← putAll putField fields)

def putAttr : AttrValue → Except CodecFault Bytes
  | .int v => .ok (Bytes.ofNat 1 0 ++ Bytes.ofNat 8 v.toUInt64.toNat)
  | .real v => .ok (Bytes.ofNat 1 1 ++ Bytes.ofNat 8 v.bits.toNat)
  | .text v => do return Bytes.ofNat 1 2 ++ (← putText v)

def putPayload : Record → Except CodecFault Bytes
  | .createGroup path => putPath path
  | .createDataset path type dims extensible chunkRows fill => do
    let path ← putPath path
    let typeBytes ← putType type
    let dims ← putExtents dims
    let chunkRows ← putExtent chunkRows
    let fill ← fill.encode type
    return path ++ typeBytes ++ dims ++ Bytes.ofNat 1 extensible.toNat ++ chunkRows ++ fill
  | .extend path extent => do return (← putPath path) ++ (← putExtent extent)
  | .write path start count payload => do
    return (← putPath path) ++ (← putExtents start) ++ (← putExtents count) ++
      (← putLength payload.length) ++ payload
  | .setAttribute path name value => do
    return (← putPath path) ++ (← putText name) ++ (← putAttr value)
  | .markScale path name => do return (← putPath path) ++ (← putText name)
  | .attachScale dataset scale label axis => do
    return (← putPath dataset) ++ (← putPath scale) ++ (← putText label) ++ (← putLength axis)
  | .softLink link target => do return (← putPath link) ++ (← putPath target)

/-! ## Payload fields, read

The same layout read back, field by field.  A payload must be read to its last byte. -/

def getLength : Reader Nat := Reader.word 4

def getExtent : Reader Nat := Reader.word 8

/-- A string after its length. -/
def getText : Reader String := do Reader.text (← getLength)

/-- The path that a text names. -/
def getPath : Reader Path := do return Path.ofText (← getText)

def getExtents : Reader (List Nat) := do getExtent.times (← getLength)

def getElement (tag : Nat) : Reader ElementType :=
  match ElementType.ofTag? tag with
  | some e => pure e
  | none => Reader.fail .elementTag

/-- A field of a record type; the length 0 stands for no array. -/
def getField : Reader Field := do
  let name ← getText
  let element ← getElement (← Reader.word 1)
  let length ← getLength
  return ⟨name, element, if length = 0 then none else some length⟩

def getType : Reader DataType := do
  let tag ← Reader.word 1
  if tag = compoundTag then
    return .compound (← getField.times (← getLength))
  else
    return .scalar (← getElement tag)

def getAttr : Reader AttrValue := do
  match ← Reader.word 1 with
  | 0 => return .int (UInt64.ofNat (← Reader.word 8)).toInt64
  | 1 => return .real ⟨UInt64.ofNat (← Reader.word 8)⟩
  | 2 => return .text (← getText)
  | tag => Reader.fail (.attributeTag tag)

/-- The record of a kind that a payload begins with. -/
def getPayload : RecordKind → Reader Record
  | .createGroup => do return .createGroup (← getPath)
  | .createDataset => do
    let path ← getPath
    let type ← getType
    let dims ← getExtents
    let extensible ← Reader.word 1
    let chunkRows ← getExtent
    let fill ← Datum.decode type
    return .createDataset path type dims (extensible ≠ 0) chunkRows fill
  | .extend => do return .extend (← getPath) (← getExtent)
  | .write => do
    let path ← getPath
    let start ← getExtents
    let count ← getExtents
    let payload ← Reader.take (← getLength)
    return .write path start count payload
  | .setAttribute => do return .setAttribute (← getPath) (← getText) (← getAttr)
  | .markScale => do return .markScale (← getPath) (← getText)
  | .attachScale => do return .attachScale (← getPath) (← getPath) (← getText) (← getLength)
  | .softLink => do return .softLink (← getPath) (← getPath)

end Frame

namespace Record

def encode (r : Record) : Except CodecFault Bytes := do
  let payload ← Frame.putPayload r
  let length ← Frame.putLength (Frame.overhead + payload.length)
  return length ++ Bytes.ofNat 4 (Checksum.crc32 payload).toNat ++ Bytes.ofNat 1 r.kind.tag ++
    payload

/-- The record whose frame bytes begin with; bytes of the payload after the record's last field
count for the checksum only. -/
def decode (bytes : Bytes) : Except CodecFault Record :=
  if bytes.length < Frame.overhead then .error .recordTooSmall
  else
    let length := Bytes.toNat (bytes.take 4)
    let stored := Bytes.toNat ((bytes.drop 4).take 4)
    match RecordKind.ofTag? (Bytes.toNat ((bytes.drop 8).take 1)) with
    | none => .error .recordTag
    | some kind =>
      if length < Frame.overhead ∨ bytes.length < length then
        .error (.truncated length bytes.length)
      else
        let payload := (bytes.take length).drop Frame.overhead
        let computed := (Checksum.crc32 payload).toNat
        if computed ≠ stored then .error (.checksum stored computed)
        else (Frame.getPayload kind payload).map (·.1)

end Record
end StudyArchive
