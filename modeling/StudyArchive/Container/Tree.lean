import StudyArchive.Dataset.Basic
import StudyArchive.Datum.Codec
import StudyArchive.Log.Record
/-
# The tree of a container

The namespace maps paths to groups, datasets and soft links; the datasets themselves lie in a list,
and a node of the namespace names one by its place there.  `Tree.apply` is the meaning of a record:
the live container and the replay of its log both go through it.
-/

namespace StudyArchive

/-- The place of a dataset in the list of datasets. -/
abbrev DatasetId := Nat

/-- What a path of a container denotes. -/
inductive Node where
  | group (attributes : SortedMap String AttrValue)
  | dataset (id : DatasetId)
  | link (target : Path)
  deriving DecidableEq

/-- The kind of a node. -/
def Node.kind : Node → NodeKind
  | group _ => .group
  | dataset _ => .dataset
  | link _ => .link

/-- The contents of a container. -/
structure Tree where
  nodes : SortedMap Path Node
  datasets : List Dataset
  deriving DecidableEq

namespace Tree

/-- The tree of a new container: the root group alone. -/
def empty : Tree := ⟨(∅ : SortedMap Path Node).insert .root (.group ∅), []⟩

instance : Inhabited Tree := ⟨empty⟩

/-! ## Looking objects up

A soft link stands for whatever lies at its target, so a path is followed before it is asked what it
denotes.  What a path denotes and under which path of its own that lies are found by two loops. -/

/-- The number of paths that are looked at on the way along soft links, the one of the object that
they lead to included. -/
def maxLinkDepth : Nat := 16

/-- The dataset of an identifier. -/
def dataset (t : Tree) (id : DatasetId) : Dataset := t.datasets[id]?.getD default

/-- The path of the first object that is no link, from a path on, if it is among so many. -/
def followPath (t : Tree) : (steps : Nat) → Path → Option Path
  | 0, _ => none
  | steps + 1, path =>
    match t.nodes.get? path with
    | none => none
    | some (.link target) => t.followPath steps target
    | some _ => some path

/-- The first object that is no link, from a path on, if it is among so many. -/
def followNode (t : Tree) : (steps : Nat) → Path → Option Node
  | 0, _ => none
  | steps + 1, path =>
    match t.nodes.get? path with
    | none => none
    | some (.link target) => t.followNode steps target
    | some node => some node

/-- The own path of the object that a path denotes. -/
def resolvePath? (t : Tree) (path : Path) : Option Path := t.followPath maxLinkDepth path

/-- The object that a path denotes. -/
def resolveNode? (t : Tree) (path : Path) : Option Node := t.followNode maxLinkDepth path

/-- The dataset that a path denotes. -/
def openDataset (t : Tree) (path : Path) (operation : String) : Except StorageError DatasetId :=
  match t.resolveNode? path with
  | some (.dataset id) => .ok id
  | _ => .error (.notFound path operation)

/-- The kind of the node at a path. -/
def kind? (t : Tree) (path : Path) : Option NodeKind := (t.nodes.get? path).map Node.kind

/-- The target of the soft link at a path. -/
def linkTarget (t : Tree) (path : Path) : Except StorageError Path :=
  match t.nodes.get? path with
  | some (.link target) => .ok target
  | _ => .error (.notFound path "resolve_link")

/-- The attributes of the group or dataset that a path denotes. -/
def attributes (t : Tree) (path : Path) : Except StorageError (SortedMap String AttrValue) :=
  match t.resolveNode? path with
  | some (.group attributes) => .ok attributes
  | some (.dataset id) => .ok (t.dataset id).attributes
  | _ => .error (.notFound path "attributes")

/-- The nodes below a group, in the order of their paths. -/
def list (t : Tree) (group : Path) : Except StorageError (List (String × NodeKind)) :=
  match t.resolveNode? group with
  | some (.group _) =>
    let resolved := (t.resolvePath? group).getD group
    .ok <| t.nodes.entries.filterMap fun (path, node) =>
      if path.parent? = some resolved then path.name?.map (·, node.kind) else none
  | _ => .error (.notFound group "list")

/-! ## The meaning of a record

Each record has one meaning, a change of the tree that may be refused.  Nodes are put, never taken
away, and the groups above a new node are made on the way to it. -/

/-- Replace a dataset by its image. -/
def updateDataset (t : Tree) (id : DatasetId) (d : Dataset) : Tree :=
  { t with datasets := t.datasets.set id d }

/-- Put a node at a path. -/
def putNode (t : Tree) (path : Path) (node : Node) : Tree :=
  { t with nodes := t.nodes.insert path node }

/-- Make groups of the paths from `prior` down through further segments, where nothing is. -/
def ensureGroups (t : Tree) (goal prior : Path) : List String → Except StorageError Tree
  | [] => .ok t
  | segment :: rest =>
    let path := prior.join segment
    match t.nodes.get? path with
    | some (.group _) => t.ensureGroups goal path rest
    | some other => .error (.groupBlocked goal path other.kind)
    | none => (t.putNode path (.group ∅)).ensureGroups goal path rest

/-- Make a group of a path and of every path above it. -/
def ensureGroup (t : Tree) (path : Path) : Except StorageError Tree :=
  t.ensureGroups path .root path.segments

/-- Make groups of the paths above a path. -/
def ensureParent (t : Tree) (path : Path) : Except StorageError Tree :=
  match path.parent? with
  | some parent => t.ensureGroup parent
  | none => .ok t

/-- Make a dataset. -/
def createDataset (t : Tree) (d : Dataset) : Except StorageError Tree := do
  if t.nodes.contains d.path then
    throw (.alreadyExists d.path "create_dataset")
  if d.extensible ∧ d.dims = [] then
    throw (.shapeMismatch d.path "create_dataset" "rank >= 1 for an extensible dataset" "rank 0")
  let t ← t.ensureParent d.path
  return { t.putNode d.path (.dataset t.datasets.length) with datasets := t.datasets ++ [d] }

/-- Set an attribute of the group or dataset at a path. -/
def setAttribute (t : Tree) (path : Path) (name : String) (value : AttrValue) :
    Except StorageError Tree :=
  match t.nodes.get? path with
  | some (.group attributes) => .ok (t.putNode path (.group (attributes.insert name value)))
  | some (.dataset id) =>
    let d := t.dataset id
    .ok (t.updateDataset id { d with attributes := d.attributes.insert name value })
  | _ => .error (.notFound path "set_attribute")

/-- Make a soft link. -/
def createLink (t : Tree) (link target : Path) : Except StorageError Tree := do
  if t.nodes.contains link then
    throw (.alreadyExists link "create_soft_link")
  return (← t.ensureParent link).putNode link (.link target)

/-- The values that a payload holds, one for each cell of a selection. -/
def payloadValues (file : String) (type : DataType) (s : Selection) (payload : Bytes) :
    Except StorageError (List Datum) :=
  match (Datum.decode type).times s.size payload with
  | .ok (values, _) => .ok values
  | .error fault => .error (.io file (.element fault))

/-- Apply a record of the log in a file. -/
def apply (file : String) (t : Tree) : Record → Except StorageError Tree
  | .createGroup path => t.ensureGroup path
  | .createDataset path type dims extensible chunkRows fill =>
    t.createDataset (.new path type dims extensible chunkRows fill)
  | .extend path extent => do
    let id ← t.openDataset path "extend"
    return t.updateDataset id (← (t.dataset id).extend extent)
  | .write path start count payload => do
    let id ← t.openDataset path "write"
    let d := t.dataset id
    let values ← payloadValues file d.type ⟨start, count⟩ payload
    return t.updateDataset id (← d.write "write" ⟨start, count⟩ values)
  | .setAttribute path name value => t.setAttribute path name value
  | .markScale path name => do
    let id ← t.openDataset path "mark_scale"
    return t.updateDataset id ((t.dataset id).markScale name)
  | .attachScale dataset scale label axis => do
    let scaleId ← t.openDataset scale "attach_scale"
    let id ← t.openDataset dataset "attach_scale"
    let attached : AttachedScale := ⟨(t.dataset scaleId).path, label⟩
    return t.updateDataset id (← (t.dataset id).attachScale axis attached)
  | .softLink link target => t.createLink link target

/-- Apply the records of a log in order; one that is refused is a corruption at its position. -/
def replay (file : String) (t : Tree) : List (Nat × Record) → Except StorageError Tree
  | [] => .ok t
  | (position, record) :: rest =>
    match t.apply file record with
    | .ok t => t.replay file rest
    | .error e => .error (if e.isOverflow then e else .corruption position e)

end Tree
end StudyArchive
