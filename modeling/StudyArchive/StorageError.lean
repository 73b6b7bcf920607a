import StudyArchive.Disk.Basic
import StudyArchive.Log.Header
/-
# Why storage refuses a request

Each error names the object or file that it is about and, for errors about datasets, the operation
that was attempted.  Codes are stable: readers of reports match on them.
-/

namespace StudyArchive

/-- What a path of a container denotes. -/
inductive NodeKind where
  | group
  | dataset
  | link
  deriving DecidableEq, Repr

def NodeKind.name : NodeKind → String
  | group => "Group"
  | dataset => "Dataset"
  | link => "Link"

/-- What went wrong with a file. -/
inductive FileCause where
  | folder (e : DiskError)
  | opening (e : DiskError)
  | locking (e : DiskError)
  | reading (e : DiskError)
  | unreadableHeader (e : DiskError)
  | shortHeader
  | invalidHeader (fault : HeaderFault)
  | unencodable (path : Path) (fault : CodecFault)
  | element (fault : CodecFault)
  | closed
  deriving DecidableEq

def FileCause.message : FileCause → String
  | folder e => s!"Failed to create directory: {e.message}"
  | opening e => s!"Failed to open file: {e.message}"
  | locking e => s!"Failed to lock file: {e.message}"
  | reading e => e.message
  | unreadableHeader e => s!"Failed to read header: {e.message}"
  | shortHeader => s!"Failed to read header: {CodecFault.shortRead.message}"
  | invalidHeader fault => s!"Invalid header: {fault.message}"
  | unencodable path fault => s!"Failed to encode record for {path}: {fault.message}"
  | element fault => fault.message
  | closed => "container is closed"

/-- Why a storage request fails. -/
inductive StorageError where
  | openFailure (file : String) (cause : FileCause)
  | createFailure (file : String) (cause : FileCause)
  /-- A record of the log, at its position in the file, that cannot be applied. -/
  | corruption (position : Nat) (cause : StorageError)
  | io (file : String) (cause : FileCause)
  /-- A group that cannot be made because another object is in its way. -/
  | groupBlocked (path blocker : Path) (kind : NodeKind)
  | notFound (path : Path) (operation : String)
  | alreadyExists (path : Path) (operation : String)
  | shapeMismatch (path : Path) (operation expected actual : String)
  | invalidIndex (path : Path) (operation : String) (index extent : Nat)
  | notExtensible (path : Path) (operation : String)
  | unsupportedType (path : Path) (operation type : String)
  | typeMismatch (path : Path) (operation expected actual : String)
  | configValue (field cause : String)
  /-- A configuration text that cannot be read. -/
  | serialization
  /-- A selection that ends at no machine word: such a request has no answer. -/
  | overflow (path : Path) (operation : String)
  deriving DecidableEq

namespace StorageError

/-- The stable code of an error; `E000` stands for none, where there is no answer. -/
def code : StorageError → String
  | openFailure .. => "E001"
  | createFailure .. => "E002"
  | corruption .. => "E004"
  | io .. => "E005"
  | groupBlocked .. => "E101"
  | notFound .. => "E102"
  | alreadyExists .. => "E103"
  | shapeMismatch .. => "E201"
  | invalidIndex .. => "E202"
  | notExtensible .. => "E203"
  | unsupportedType .. => "E204"
  | typeMismatch .. => "E205"
  | configValue .. => "E802"
  | serialization => "E804"
  | overflow .. => "E000"

/-- What an error says after its code. -/
def text : StorageError → String
  | openFailure file cause => s!"Failed to open container at {file}: {cause.message}"
  | createFailure file cause => s!"Failed to create container at {file}: {cause.message}"
  | corruption position cause =>
    s!"Container corruption detected at byte {position}: {cause.code}: {cause.text}"
  | io file cause => s!"I/O error at {file}: {cause.message}"
  | groupBlocked path blocker kind =>
    s!"Failed to create group {path}: {blocker} is a {kind.name}, not a group"
  | notFound path operation => s!"{operation}: no object at {path}"
  | alreadyExists path operation => s!"{operation}: object already exists at {path}"
  | shapeMismatch path operation expected actual =>
    s!"{operation} on {path}: shape mismatch, expected {expected}, got {actual}"
  | invalidIndex path operation index extent =>
    s!"{operation} on {path}: index {index} out of range for extent {extent}"
  | notExtensible path operation => s!"{operation} on {path}: dataset is not extensible"
  | unsupportedType path operation type => s!"{operation} on {path}: unsupported type {type}"
  | typeMismatch path operation expected actual =>
    s!"{operation} on {path}: type mismatch, expected {expected}, got {actual}"
  | configValue field cause => s!"Invalid configuration '{field}': {cause}"
  | serialization => "Serialization error"
  | overflow path operation => s!"{operation} on {path}: no answer"

/-- The whole wording of an error. -/
def message (e : StorageError) : String := s!"{e.code}: {e.text}"

/-- Whether an error is about a container's file. -/
def aboutContainer : StorageError → Bool
  | openFailure .. | createFailure .. | corruption .. | io .. => true
  | _ => false

/-- Whether an error is about the shape of a dataset. -/
def aboutShape : StorageError → Bool
  | shapeMismatch .. | invalidIndex .. | notExtensible .. => true
  | _ => false

/-- Whether an error stands for a request that has no answer. -/
def isOverflow : StorageError → Bool
  | overflow .. => true
  | _ => false

end StorageError

def showExtents (dims : List Nat) : String :=
  "[" ++ ", ".intercalate (dims.map toString) ++ "]"

end StudyArchive
