import StudyArchive.Archive.Value
import StudyArchive.Container.Basic
import StudyArchive.Table
/-
# Archives

An archive is a container opened for typed access.  It makes datasets from shapes, remembers where
the growing ones are, and attaches scales to them.
-/

namespace StudyArchive

/-- A container opened for typed access. -/
structure Archive where
  mounted : Mounted
  /-- The growing datasets that were made or grown, by the paths they were asked for. -/
  handles : Table Path DatasetId
  /-- The size that chunks aim at, in bytes. -/
  chunkBytes : Nat

namespace Archive

/-- A step that changes an archive, and may fail. -/
abbrev Action := EStateM StorageError Archive

def container (a : Archive) : Container := a.mounted.container

def tree (a : Archive) : Tree := a.container.tree

def dataset (a : Archive) (id : DatasetId) : Dataset := a.tree.dataset id

/-- A step of the container as a step of the archive. -/
def onContainer {α : Type} (act : Container.Action α) : Action α := fun a =>
  match act a.mounted with
  | .ok v m => .ok v { a with mounted := m }
  | .error e m => .error e { a with mounted := m }

/-! ## Looking datasets up

What is remembered of growing datasets is asked first, then the namespace.  A dataset of another
rank is refused before one of another element type. -/

/-- The dataset at a path, remembered or resolved. -/
def lookup (a : Archive) (path : Path) (operation : String) : Except StorageError DatasetId :=
  match a.handles.get? path with
  | some id => .ok id
  | none => a.tree.openDataset path operation

/-- Remember where a growing dataset is. -/
def remember (path : Path) (id : DatasetId) : Action Unit :=
  modify fun a => { a with handles := a.handles.insert path id }

/-- Refuse a dataset of another rank. -/
def expectRank (d : Dataset) (operation : String) (rank : Nat) : Except StorageError Unit :=
  if d.rank = rank then .ok ()
  else
    .error (.shapeMismatch d.path operation s!"rank {rank}"
      s!"rank {d.rank} {showExtents d.dims}")

/-- Refuse a dataset of another element type. -/
def expectType (d : Dataset) (operation : String) (e : ElementType) : Except StorageError Unit :=
  if d.type.scalar? = some e then .ok ()
  else .error (.typeMismatch d.path operation d.type.name e.name)

/-- The dataset at a path, of a given rank. -/
def lookupRank (a : Archive) (path : Path) (operation : String) (rank : Nat) :
    Except StorageError DatasetId := do
  let id ← a.lookup path operation
  expectRank (a.dataset id) operation rank
  return id

/-- The dataset at a path, of a given rank and element type. -/
def lookupTyped (a : Archive) (path : Path) (operation : String) (rank : Nat) (e : ElementType) :
    Except StorageError DatasetId := do
  let id ← a.lookupRank path operation rank
  expectType (a.dataset id) operation e
  return id

/-! ## Making objects

A dataset that is made empty grows if its first extent is 0, and then it is remembered under the
path that it was asked for; a fixed one and a list of records never grow. -/

/-- Set an attribute of the group or dataset at a path. -/
def setAttribute (path : Path) (name : String) (value : AttrValue) : Action Unit :=
  onContainer (Container.setAttribute path name value)

/-- Make a dataset.  A growing one has chunks of the wished size, any other one chunk. -/
def createDataset (path : Path) (type : DataType) (dims : List Nat) (extensible : Bool)
    (chunkHint : Option Nat) (fill : Option Datum) : Action Unit := do
  let rowBytes := type.size * volume dims.tail
  let wished := chunkHint.getD (← get).chunkBytes
  let chunkRows :=
    if extensible then max (wished / max rowBytes 1) 1
    else max (dims.head?.getD 1) 1
  let id ← onContainer <|
    Container.createDataset path type dims extensible chunkRows (fill.getD (.zero type))
  if extensible then
    remember path id

/-- Make a dataset of any type, growing if its first extent is 0. -/
def createEmptyOf (path : Path) (type : DataType) (dims : List Nat) (chunkHint : Option Nat)
    (fill : Option Datum) : Action Unit := do
  if type = .compound [] then
    throw (.unsupportedType path "create_empty_dataset" "compound without fields")
  if dims.tail.contains 0 then
    throw (.shapeMismatch path "create_empty_dataset" "non-zero trailing dimensions"
      (showExtents dims))
  createDataset path type dims (dims.head? = some 0) chunkHint fill

/-- Make a dataset of an element type, growing if its first extent is 0. -/
def createEmpty (path : Path) (e : ElementType) (dims : List Nat) (fill : Option e.Value) :
    Action Unit :=
  createEmptyOf path (.scalar e) dims none (fill.map e.toDatum)

/-- Make a dataset of an element type that never grows. -/
def createFixed (path : Path) (e : ElementType) (dims : List Nat) (fill : Option e.Value) :
    Action Unit :=
  createDataset path (.scalar e) dims false none (fill.map e.toDatum)

/-- Make a dataset of records that never grows. -/
def createCompound (path : Path) (dims : List Nat) (fields : List Field) : Action Unit := do
  if dims = [] ∨ dims.contains 0 then
    throw (.shapeMismatch path "create_empty_compound_dataset" "non-zero fixed dimensions"
      (showExtents dims))
  createEmptyOf path (.compound fields) dims none none

def createGroup (path : Path) : Action Unit := onContainer (Container.createGroup path)

def createLink (link target : Path) : Action Unit := onContainer (Container.createLink link target)

/-- Attach a scale to an axis of a dataset; a scale without a name takes the label as its name. -/
def attachScale (dataset scale : Path) (label : String) (axis : Nat) : Action Unit := do
  let id ← liftExcept ((← get).lookup dataset "attach_scale")
  let scaleId ← liftExcept ((← get).lookup scale "attach_scale")
  if ((← get).dataset scaleId).scaleName.isNone then
    onContainer (Container.markScale scaleId label)
  let _ ← onContainer (Container.attachScale id scaleId label axis)

/-! ## Opening and closing

An archive that is started over describes itself in the attributes of its root.  If that fails,
the file is closed again. -/

/-- What a new container's root says about its making. -/
def describeRoot (config : StorageConfig) (header : Header) (stamp : Stamp) : Action Unit := do
  setAttribute .root "format_version" (.text header.schema.text)
  setAttribute .root "tool_version" (.text config.toolVersion)
  setAttribute .root "tool_revision" (.text config.toolRevision)
  setAttribute .root "run_id" (.text stamp.runText)
  setAttribute .root "created" (.text stamp.created)

/-- An archive, or why there is none, and the disk after the attempt. -/
structure Opened where
  result : Except StorageError Archive
  disk : Disk
  /-- Whether a torn tail was left out on the way. -/
  notice : Option TornNotice

/-- Open an archive as configured. -/
def openFile (disk : Disk) (config : StorageConfig) (stamp : Stamp) : Opened :=
  let opening := Container.openFile disk config stamp
  match opening.result with
  | .error e => ⟨.error e, opening.disk, opening.notice⟩
  | .ok container =>
    let archive : Archive := ⟨⟨opening.disk, container⟩, ∅, config.chunkBytes⟩
    if container.created then
      match describeRoot config container.header stamp archive with
      | .ok () a => ⟨.ok a, a.mounted.disk, opening.notice⟩
      | .error e a => ⟨.error e, (Container.close a.mounted).disk, opening.notice⟩
    else ⟨.ok archive, opening.disk, opening.notice⟩

def flush : Action Unit := onContainer Container.flush

/-- Close an archive; what it holds can still be read. -/
def close (a : Archive) : Archive := { a with mounted := Container.close a.mounted, handles := ∅ }

/-! ## Asking -/

/-- Whether an object, or a link, is at a path. -/
def contains (a : Archive) (path : Path) : Bool := a.tree.nodes.contains path

def dims (a : Archive) (path : Path) : Except StorageError (List Nat) := do
  return (a.dataset (← a.lookup path "dims")).dims

/-- The type of a dataset's elements. -/
def type (a : Archive) (path : Path) : Except StorageError DataType := do
  return (a.dataset (← a.lookup path "dtype")).type

def isScale (a : Archive) (path : Path) : Except StorageError Bool := do
  return (a.dataset (← a.lookup path "is_scale")).scaleName.isSome

/-- The scales attached to an axis of a dataset. -/
def scales (a : Archive) (path : Path) (axis : Nat) : Except StorageError (List AttachedScale) := do
  let d := a.dataset (← a.lookup path "scales")
  if d.rank ≤ axis then
    throw (.invalidIndex path "scales" axis d.rank)
  return d.scalesAt axis

/-- The first scale on an axis of a dataset that has a label. -/
def scaleByLabel (a : Archive) (path : Path) (axis : Nat) (label : String) :
    Except StorageError Path := do
  match (← a.scales path axis).find? (·.label = label) with
  | some s => return s.scale
  | none => throw (.notFound (path.join label) "scale_by_label")

def attr (a : Archive) (path : Path) (name : String) : Except StorageError AttrValue := do
  match (← a.tree.attributes path).get? name with
  | some value => return value
  | none => throw (.notFound (path.join ("@" ++ name)) "attribute")

/-- The attributes of a group or dataset, by label. -/
def attributes (a : Archive) (path : Path) : Except StorageError (List Attribute) := do
  return (← a.tree.attributes path).entries.map fun (label, value) => ⟨label, value⟩

end Archive
end StudyArchive
