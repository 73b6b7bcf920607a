import StudyArchive.Codec.Hex
/-
# The header of a container file

The first 128 bytes of a container file: a magic number, the format's version, the run that wrote
the file and the version of the schema.  A file is read only if the magic number, the format version
and the schema's major version are the ones written here.
-/

namespace StudyArchive

/-- Who opened a container first, and when. -/
structure Stamp where
  /-- The 16 bytes of the run's identifier. -/
  runId : Vector UInt8 16
  /-- Seconds since 1970. -/
  createdAt : Nat
  /-- The same moment as a text. -/
  created : String
  deriving DecidableEq, Repr

namespace Stamp

instance : Inhabited Stamp := ⟨⟨.replicate 16 0, 0, ""⟩⟩

/-- The text of a run's identifier: groups of 4, 2, 2, 2 and 6 bytes with hyphens between. -/
def runText (s : Stamp) : String :=
  let digits := s.runId.toList.flatMap Bytes.hexByte
  let group (start length : Nat) := String.ofList ((digits.drop start).take length)
  "-".intercalate [group 0 8, group 8 4, group 12 4, group 16 4, group 20 12]

end Stamp

/-- Why a header is refused. -/
inductive HeaderFault where
  | magic
  | format
  | schema
  deriving DecidableEq, Repr

def HeaderFault.message : HeaderFault → String
  | magic => "Invalid magic number"
  | format => "Unsupported log format version"
  | schema => "Incompatible schema major version"

structure SchemaVersion where
  major : UInt16
  minor : UInt16
  patch : UInt16
  deriving DecidableEq, Repr

def SchemaVersion.text (v : SchemaVersion) : String :=
  s!"{v.major.toNat}.{v.minor.toNat}.{v.patch.toNat}"

/-- The header of a container file. -/
structure Header where
  magic : UInt64
  format : UInt32
  flags : UInt32
  runId : Vector UInt8 16
  createdAt : UInt64
  schema : SchemaVersion
  reserved : Vector UInt8 82
  deriving DecidableEq, Repr

namespace Header

/-- The number of bytes of a header. -/
def size : Nat := 128

/-- The number that marks a container file. -/
def containerMagic : UInt64 := 0x4556414C44424346

def formatVersion : UInt32 := 1

def schemaVersion : SchemaVersion := ⟨1, 0, 0⟩

/-- The header of a new container. -/
def ofStamp (s : Stamp) : Header where
  magic := containerMagic
  format := formatVersion
  flags := 0
  runId := s.runId
  createdAt := UInt64.ofNat s.createdAt
  schema := schemaVersion
  reserved := .replicate 82 0

/-- The first thing that is wrong with a header. -/
def fault? (h : Header) : Option HeaderFault :=
  if h.magic ≠ containerMagic then some .magic
  else if h.format ≠ formatVersion then some .format
  else if h.schema.major ≠ schemaVersion.major then some .schema
  else none

def encode (h : Header) : Bytes :=
  Bytes.ofNat 8 h.magic.toNat ++ Bytes.ofNat 4 h.format.toNat ++ Bytes.ofNat 4 h.flags.toNat ++
    h.runId.toList ++ Bytes.ofNat 8 h.createdAt.toNat ++ Bytes.ofNat 2 h.schema.major.toNat ++
    Bytes.ofNat 2 h.schema.minor.toNat ++ Bytes.ofNat 2 h.schema.patch.toNat ++ h.reserved.toList

theorem length_encode (h : Header) : h.encode.length = size := by
  simp [encode, size]

/-- A block of bytes of a fixed length. -/
def block (n : Nat) : Reader (Vector UInt8 n) := fun bytes =>
  if h : (bytes.take n).length = n then
    .ok (⟨(bytes.take n).toArray, by simpa using h⟩, bytes.drop n)
  else .error .shortRead

/-- Read the fields of a header. -/
def read : Reader Header := do
  let magic ← Reader.word 8
  let format ← Reader.word 4
  let flags ← Reader.word 4
  let runId ← block 16
  let createdAt ← Reader.word 8
  let major ← Reader.word 2
  let minor ← Reader.word 2
  let patch ← Reader.word 2
  let reserved ← block 82
  return {
    magic := UInt64.ofNat magic
    format := UInt32.ofNat format
    flags := UInt32.ofNat flags
    runId
    createdAt := UInt64.ofNat createdAt
    schema := ⟨UInt16.ofNat major, UInt16.ofNat minor, UInt16.ofNat patch⟩
    reserved }

/-- The header that bytes begin with. -/
def decode (bytes : Bytes) : Except CodecFault Header :=
  if bytes.length < size then .error .headerTooSmall
  else (read bytes).map (·.1)

end Header
end StudyArchive
