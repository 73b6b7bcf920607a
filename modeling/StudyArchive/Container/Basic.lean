import StudyArchive.Config.Storage
import StudyArchive.Container.Tree
import StudyArchive.Log.Replay
import StudyArchive.Log.Writer
/-
# Containers

A container is a tree in memory and the writer of its log.  Every change is a record: it is checked
against the tree, applied to it and appended to the log, from which replay builds the tree again.
A closed container has no writer: it can be read, and no record can be appended.
-/

namespace StudyArchive

/-- A tree and the writer of its log. -/
structure Container where
  /-- The name of the file. -/
  file : String
  header : Header
  tree : Tree
  /-- The writer; a closed container has none. -/
  writer : Option LogWriter
  /-- Whether the file was started over. -/
  created : Bool
  deriving DecidableEq

/-- A container and the disk that its file lies on. -/
structure Mounted where
  disk : Disk
  container : Container

/-- What opening a container leads to. -/
structure Opening where
  result : Except StorageError Container
  disk : Disk
  /-- Whether a torn tail was left out on the way. -/
  notice : Option TornNotice

namespace Container

/-- Start a container's file over. -/
def create (disk : Disk) (config : StorageConfig) (stamp : Stamp) : Opening :=
  let header := Header.ofStamp stamp
  match LogWriter.create config.path header config.bufferSize disk with
  | .error e disk => ⟨.error e, disk, none⟩
  | .ok writer disk => ⟨.ok ⟨config.path, header, .empty, some writer, true⟩, disk, none⟩

/-- Go on with a container's file: replay its log, and only then lock the file and cut the torn
tail off. -/
def reopen (disk : Disk) (config : StorageConfig) : Opening :=
  match Replay.ofFile disk config.path with
  | .error e => ⟨.error e, disk, none⟩
  | .ok replay =>
    let notice := TornNotice.ofReplay config.path replay
    match Tree.empty.replay config.path replay.scan.records with
    | .error e => ⟨.error e, disk, notice⟩
    | .ok tree =>
      match LogWriter.openAppend config.path replay.scan.validEnd config.bufferSize disk with
      | .error e disk => ⟨.error e, disk, notice⟩
      | .ok writer disk =>
        ⟨.ok ⟨config.path, replay.header, tree, some writer, false⟩, disk, notice⟩

/-- Open a container as configured. -/
def openFile (disk : Disk) (config : StorageConfig) (stamp : Stamp) : Opening :=
  match config.validate with
  | .error e => ⟨.error e, disk, none⟩
  | .ok () =>
    match config.mode with
    | .truncate => create disk config stamp
    | .append => reopen disk config

def isClosed (c : Container) : Bool := c.writer.isNone

def dataset (c : Container) (id : DatasetId) : Dataset := c.tree.dataset id

/-- The values of a selection of a dataset. -/
def read (c : Container) (id : DatasetId) (operation : String) (s : Selection) :
    Except StorageError (List Datum) :=
  (c.dataset id).read operation s

/-- A step that changes a container and its disk, and may fail. -/
abbrev Action := EStateM StorageError Mounted

/-- The refusal of a closed container. -/
def closedError (c : Container) : StorageError := .io c.file .closed

/-- Append a record to the log. -/
def append (r : Record) : Action Unit := fun m =>
  match m.container.writer with
  | none => .error m.container.closedError m
  | some w =>
    match w.append m.disk r with
    | .error e => .error e m
    | .ok (w, disk) => .ok () ⟨disk, { m.container with writer := some w }⟩

/-- Put a tree in place of the old one. -/
def setTree (t : Tree) : Action Unit :=
  modify fun m => { m with container := { m.container with tree := t } }

/-- Apply a record and append it to the log. -/
def commit (r : Record) : Action Unit := do
  let c := (← get).container
  if c.isClosed then
    throw c.closedError
  let tree ← liftExcept (c.tree.apply c.file r)
  setTree tree
  append r

def createGroup (path : Path) : Action Unit := do
  let c := (← get).container
  match c.tree.nodes.get? path with
  | some (.group _) => return
  | _ => commit (.createGroup path)

def createDataset (path : Path) (type : DataType) (dims : List Nat) (extensible : Bool)
    (chunkRows : Nat) (fill : Datum) : Action DatasetId := do
  unless fill.conforms type do
    throw (.typeMismatch path "create_dataset" type.name fill.kind)
  commit (.createDataset path type dims extensible chunkRows fill)
  return (← get).container.tree.datasets.length - 1

/-- Give the first axis of a dataset a new extent. -/
def extend (id : DatasetId) (extent : Nat) : Action Unit := do
  let d := (← get).container.dataset id
  unless d.extensible do
    throw (.notExtensible d.path "extend")
  commit (.extend d.path extent)

/-- The bytes of values, all of them elements of a dataset's type. -/
def payload (c : Container) (d : Dataset) (operation : String) :
    List Datum → Except StorageError Bytes
  | [] => .ok []
  | v :: rest => do
    unless v.conforms d.type do
      throw (.typeMismatch d.path operation d.type.name v.kind)
    let first ← (v.encode d.type).mapError fun fault => .io c.file (.element fault)
    return first ++ (← c.payload d operation rest)

/-- Write values over a selection of a dataset.  The tree takes them before the log does. -/
def write (id : DatasetId) (operation : String) (s : Selection) (values : List Datum) :
    Action Unit := do
  let c := (← get).container
  let d := c.dataset id
  liftExcept (d.checkSelection operation s)
  let bytes ← liftExcept (c.payload d operation values)
  let written ← liftExcept (d.write operation s values)
  setTree (c.tree.updateDataset id written)
  append (.write d.path s.start s.count bytes)

/-- Set an attribute of the group or dataset that a path denotes. -/
def setAttribute (path : Path) (name : String) (value : AttrValue) : Action Unit := do
  match (← get).container.tree.resolvePath? path with
  | some target => commit (.setAttribute target name value)
  | none => throw (.notFound path "set_attribute")

/-- Name a dataset as a scale. -/
def markScale (id : DatasetId) (name : String) : Action Unit := do
  let d := (← get).container.dataset id
  unless d.scaleName = some name do
    commit (.markScale d.path name)

/-- Attach a scale to an axis of a dataset; tells whether it was not attached before. -/
def attachScale (id scale : DatasetId) (label : String) (axis : Nat) : Action Bool := do
  let c := (← get).container
  let d := c.dataset id
  let scalePath := (c.dataset scale).path
  if d.rank ≤ axis then
    throw (.invalidIndex d.path "attach_scale" axis d.rank)
  if (d.scalesAt axis).any (·.scale = scalePath) then
    return false
  commit (.attachScale d.path scalePath label axis)
  return true

/-- Make a soft link; one that is there with the same target stays. -/
def createLink (link target : Path) : Action Unit := do
  match (← get).container.tree.nodes.get? link with
  | some node =>
    unless node = .link target do
      throw (.alreadyExists link "create_soft_link")
  | none => commit (.softLink link target)

def flush : Action Unit := fun m =>
  match m.container.writer with
  | none => .error m.container.closedError m
  | some w =>
    let (w, disk) := w.flush m.disk
    .ok () ⟨disk, { m.container with writer := some w }⟩

/-- Close a container: its log is flushed and its file unlocked. -/
def close (m : Mounted) : Mounted :=
  match m.container.writer with
  | none => m
  | some w => ⟨w.close m.disk, { m.container with writer := none }⟩

end Container
end StudyArchive
