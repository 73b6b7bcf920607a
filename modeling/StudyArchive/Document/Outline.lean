import StudyArchive.Container.Walk
import StudyArchive.Document.Encode
/-
# Outlines of containers

The contents of a container as a document.  The reader says which attributes to leave out.
-/

namespace StudyArchive.Document

def ofNodeKind (k : NodeKind) : Document := text k.name

/-- The names of nodes and their kinds. -/
def ofNames (l : List (String × NodeKind)) : Document :=
  ofList (fun (name, kind) => list [text name, ofNodeKind kind]) l

def ofSelection (s : Selection) : Document := list [ofNats s.start, ofNats s.count]

def ofScale (s : AttachedScale) : Document := list [ofPath s.scale, text s.label]

/-- The attributes of an object that are to be shown. -/
def ofAttributes (shown : Attribute → Bool) (l : List Attribute) : Document :=
  ofList ofAttribute (l.filter shown)

/-- Attributes by label, as a list. -/
def labelled (m : SortedMap String AttrValue) : List Attribute :=
  m.entries.map fun (label, value) => ⟨label, value⟩

/-- What a dataset is, without its contents. -/
def shapeMembers (d : Dataset) : List (String × Document) :=
  [("dtype", ofType d.type), ("dims", ofNats d.dims), ("extensible", bool d.extensible),
    ("chunk_rows", ofNat d.chunkRows), ("fill", ofDatum d.fill),
    ("scale_name", ofOption text d.scaleName)]

/-- The cells of a dataset, unless there are more of them than a limit. -/
def ofCells (limit : Nat) (d : Dataset) : Document :=
  if d.length > limit then text "omitted" else ofList (fun c => ofDatum (d.cell c)) d.full.cells

/-- An object of a container. -/
def ofObject (limit : Nat) (shown : Attribute → Bool) (t : Tree) (path : Path) : Node → Document
  | .group l =>
    object [("path", ofPath path), ("kind", ofNodeKind .group),
      ("attributes", ofAttributes shown (labelled l))]
  | .link target =>
    object [("path", ofPath path), ("kind", ofNodeKind .link), ("target", ofPath target)]
  | .dataset id =>
    let d := t.dataset id
    object <| ("path", ofPath path) :: ("kind", ofNodeKind .dataset) :: shapeMembers d ++
      [("scales", ofList (ofList ofScale) d.scales),
        ("attributes", ofAttributes shown (labelled d.attributes)), ("values", ofCells limit d)]

/-- Every object of a container. -/
def ofTree (limit : Nat) (shown : Path → Attribute → Bool) (t : Tree) : Document :=
  ofList (fun (path, node) => ofObject limit (shown path) t path node) t.walk

end StudyArchive.Document
