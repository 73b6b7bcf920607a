import StudyArchive.Codec.Text
import StudyArchive.Disk.FileName
import StudyArchive.Table
/-
# Files, folders and locks

The part of a file system that containers use: files as byte sequences, folders, and the exclusive
locks of the writers that hold a file open.  Files and folders have numbers, and folders give them
names; what a lock belongs to is the file, whichever name it was opened by.
-/

namespace StudyArchive

/-- Why the file system refuses a request. -/
inductive DiskError where
  | notFound
  | locked
  | occupied
  | notFolder
  | isFolder
  | nameTooLong
  /-- A name with a character that no name may hold. -/
  | unwritableName
  /-- The bytes of a file spell no text. -/
  | notText
  deriving DecidableEq, Repr

def DiskError.message : DiskError → String
  | notFound => "No such file or directory (os error 2)"
  | locked => "Resource temporarily unavailable (os error 11)"
  | occupied => "File exists (os error 17)"
  | notFolder => "Not a directory (os error 20)"
  | isFolder => "Is a directory (os error 21)"
  | nameTooLong => "File name too long (os error 36)"
  | unwritableName => "file name contained an unexpected NUL byte"
  | notText => "stream did not contain valid UTF-8"

/-- The number of a file. -/
abbrev FileId := Nat

/-- The number of a folder. -/
abbrev FolderId := Nat

/-- What a folder gives a name to. -/
inductive Entry where
  | file (id : FileId)
  | folder (id : FolderId)
  deriving DecidableEq, Repr

/-- A folder. -/
structure Folder where
  /-- The folder around it; the outermost one is around itself. -/
  around : FolderId
  entries : Table String Entry := ∅
  deriving DecidableEq

instance : Inhabited Folder := ⟨⟨0, ∅⟩⟩

/-- Files, folders and locks. -/
structure Disk where
  files : Table FileId Bytes := ∅
  /-- The folders by number.  The outermost one comes first, and then the one where names begin,
  which no name can say. -/
  folders : Array Folder := #[⟨0, ∅⟩, ⟨0, ∅⟩]
  locks : List FileId := []
  deriving DecidableEq

namespace Disk

instance : Inhabited Disk := ⟨{}⟩

/-- A request that may change the disk, also if it is refused in the end. -/
abbrev Action := EStateM DiskError Disk

/-- The bytes of a file, none where there is no file. -/
def bytesAt (d : Disk) (id : FileId) : Bytes := (d.files.get? id).getD []

/-- The disk with a file's bytes replaced. -/
def put (d : Disk) (id : FileId) (bytes : Bytes) : Disk :=
  { d with files := d.files.insert id bytes }

def folder (d : Disk) (id : FolderId) : Folder := d.folders[id]?.getD default

/-! ## Where names lead

A name leads step by step through folders that must be there, and the last step may lead to a name
that is still free.  A mark at the end of a name asks for a folder. -/

/-- Where a way leads: a folder, or a name in a folder, which may be free. -/
inductive Spot where
  | folder (id : FolderId)
  | name (around : FolderId) (name : String)
  deriving DecidableEq, Repr

/-- What is at a spot. -/
def entry? (d : Disk) : Spot → Option Entry
  | .folder id => some (.folder id)
  | .name around name => (d.folder around).entries.get? name

/-- The folder at a spot. -/
def folderAt (d : Disk) (p : Spot) : Except DiskError FolderId :=
  match d.entry? p with
  | some (.folder id) => .ok id
  | some (.file _) => .error .notFolder
  | none => .error .notFound

/-- The spot a step away. -/
def advance (d : Disk) (p : Spot) (s : Step) : Except DiskError Spot := do
  let id ← d.folderAt p
  if s.isTooLong then throw .nameTooLong
  match s with
  | .stay => return .folder id
  | .up => return .folder (d.folder id).around
  | .into name => return .name id name

/-- The spot where a name leads. -/
def reach (d : Disk) (n : FileName) : Except DiskError Spot :=
  if n.isUnwritable then .error .unwritableName
  else if n.text = "" then .error .notFound
  else if n.isTooLong then .error .nameTooLong
  else n.steps.foldlM d.advance (.folder (if n.fromTop then 0 else 1))

/-- What a name denotes. -/
def find (d : Disk) (n : FileName) : Except DiskError Entry := do
  let p ← d.reach n
  if n.asFolder then return .folder (← d.folderAt p)
  match d.entry? p with
  | some e => return e
  | none => throw .notFound

/-- Whether a name denotes a folder. -/
def denotesFolder (d : Disk) (n : FileName) : Bool :=
  match d.find n with
  | .ok (.folder _) => true
  | _ => false

def findFile (d : Disk) (n : FileName) : Except DiskError FileId := do
  match ← d.find n with
  | .file id => return id
  | .folder _ => throw .isFolder

/-- The text of the file that a name denotes. -/
def textAt (d : Disk) (n : FileName) : Except DiskError String := do
  let id ← d.findFile n
  match (d.bytesAt id).toText? with
  | .ok s => return s
  | .error _ => throw .notText

/-! ## Making files and folders

What is made gets a number that nothing has.  Folders are made from the innermost one outward
until one can be made, and then inward again; that one is there already is not held against it. -/

/-- The disk with a name given in a folder. -/
def enter (d : Disk) (around : FolderId) (name : String) (e : Entry) : Disk :=
  let give (f : Folder) : Folder := { f with entries := f.entries.insert name e }
  { d with folders := d.folders.modify around give }

/-- A number that no file has. -/
def freeId (d : Disk) : FileId := d.files.rows.foldl (fun k row => max k (row.1 + 1)) 0

/-- Make sure that there is a file of a name, and tell which: an absent one is made, empty.  A name
that denotes a folder, or ends like that of one, is refused. -/
def makeFile (n : FileName) : Action FileId := fun d =>
  match d.reach n with
  | .error e => .error e d
  | .ok (.folder _) => .error .isFolder d
  | .ok (.name around name) =>
    if n.asFolder then .error .isFolder d
    else
      match d.entry? (.name around name) with
      | some (.folder _) => .error .isFolder d
      | some (.file id) => .ok id d
      | none => .ok d.freeId ((d.put d.freeId []).enter around name (.file d.freeId))

def makeFolder (d : Disk) (n : FileName) : Except DiskError Disk := do
  match ← d.reach n with
  | .folder _ => throw .occupied
  | .name around name =>
    if (d.entry? (.name around name)).isSome then throw .occupied
    let d' := d.enter around name (.folder d.folders.size)
    return { d' with folders := d'.folders.push ⟨around, ∅⟩ }

/-- Make sure that a name denotes a folder, given the name and those of the folders around it,
innermost first.  Where the folder around is absent, that one is made before. -/
def makeFrom : (around : List FileName) → Action Unit
  | [] => pure ()
  | n :: above => fun d =>
    let settle (d : Disk) (e : DiskError) : EStateM.Result DiskError Disk Unit :=
      if d.denotesFolder n then .ok () d else .error e d
    match d.makeFolder n with
    | .ok d => .ok () d
    | .error .notFound =>
      match makeFrom above d with
      | .error e d => .error e d
      | .ok () d =>
        match d.makeFolder n with
        | .ok d => .ok () d
        | .error e => settle d e
    | .error e => settle d e

/-- Make sure that a name denotes a folder. -/
def makeFolders (n : FileName) : Action Unit := makeFrom n.around

/-! ## Locks

A lock belongs to the file, by whatever name it was opened, and one writer at a time can take it. -/

def lock (id : FileId) : Action Unit := fun d =>
  if d.locks.contains id then .error .locked d else .ok () { d with locks := id :: d.locks }

def unlock (d : Disk) (id : FileId) : Disk := { d with locks := d.locks.erase id }

/-! ## Parts of files -/

/-- Bytes cut or filled up with zeros to a length. -/
def resized (bytes : Bytes) (length : Nat) : Bytes :=
  bytes.take length ++ List.replicate (length - bytes.length) 0

/-- Give a file a length. -/
def resize (d : Disk) (id : FileId) (length : Nat) : Disk :=
  d.put id (resized (d.bytesAt id) length)

/-- Write over a file's bytes from a position on. -/
def writeAt (d : Disk) (id : FileId) (position : Nat) (bytes : Bytes) : Disk :=
  let old := d.bytesAt id
  d.put id (resized old position ++ bytes ++ old.drop (position + bytes.length))

end Disk
end StudyArchive
