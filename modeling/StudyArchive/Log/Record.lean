import StudyArchive.Attribute
import StudyArchive.Datum.Basic
import StudyArchive.Codec.Bytes
import StudyArchive.Path
/-
# Log records

A record is one change of a container: what the log keeps and replay applies.
-/

namespace StudyArchive

/-- The kinds of records. -/
inductive RecordKind where
  | createGroup
  | createDataset
  | extend
  | write
  | setAttribute
  | markScale
  | attachScale
  | softLink
  deriving DecidableEq, Repr

namespace RecordKind

/-- The byte that stands for a kind. -/
def tag : RecordKind → Nat
  | createGroup => 0
  | createDataset => 1
  | extend => 2
  | write => 3
  | setAttribute => 4
  | markScale => 5
  | attachScale => 6
  | softLink => 7

/-- All the kinds, in the order of their bytes. -/
def all : List RecordKind :=
  [createGroup, createDataset, extend, write, setAttribute, markScale, attachScale, softLink]

/-- The kind that a byte stands for. -/
def ofTag? (n : Nat) : Option RecordKind := all.find? (·.tag = n)

def name : RecordKind → String
  | createGroup => "CreateGroup"
  | createDataset => "CreateDataset"
  | extend => "Extend"
  | write => "Write"
  | setAttribute => "SetAttribute"
  | markScale => "MarkScale"
  | attachScale => "AttachScale"
  | softLink => "SoftLink"

theorem ofTag?_tag (k : RecordKind) : ofTag? k.tag = some k := by
  cases k <;> rfl

end RecordKind

/-- One change of a container. -/
inductive Record where
  /-- Make a group, and the groups above it. -/
  | createGroup (path : Path)
  /-- Make a dataset of a type and shape, every element the fill. -/
  | createDataset (path : Path) (type : DataType) (dims : List Nat) (extensible : Bool)
      (chunkRows : Nat) (fill : Datum)
  /-- Give the first axis of a dataset a new extent. -/
  | extend (path : Path) (extent : Nat)
  /-- Write encoded elements over a selection. -/
  | write (path : Path) (start count : List Nat) (payload : Bytes)
  /-- Set an attribute of a group or a dataset. -/
  | setAttribute (path : Path) (name : String) (value : AttrValue)
  /-- Name a dataset as a scale. -/
  | markScale (path : Path) (name : String)
  /-- Attach a scale to an axis of a dataset. -/
  | attachScale (dataset scale : Path) (label : String) (axis : Nat)
  /-- Make a path stand for another. -/
  | softLink (link target : Path)
  deriving DecidableEq

namespace Record

instance : Inhabited Record := ⟨createGroup .root⟩

def kind : Record → RecordKind
  | createGroup .. => .createGroup
  | createDataset .. => .createDataset
  | extend .. => .extend
  | write .. => .write
  | setAttribute .. => .setAttribute
  | markScale .. => .markScale
  | attachScale .. => .attachScale
  | softLink .. => .softLink

/-- The object that a record changes or makes. -/
def path : Record → Path
  | createGroup path => path
  | createDataset path .. => path
  | extend path _ => path
  | write path .. => path
  | setAttribute path .. => path
  | markScale path _ => path
  | attachScale dataset .. => dataset
  | softLink link _ => link

end Record
end StudyArchive
