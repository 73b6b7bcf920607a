import StudyArchive.Container.Tree
/-
# Walking a tree

Every object below a path, groups before what they hold, each group's nodes in the order of their
paths.
-/

namespace StudyArchive.Tree

/-- The paths of the nodes directly below a group's path. -/
def children (t : Tree) (group : Path) : List Path :=
  (t.nodes.keys).filter fun path => path.parent? = some group

/-- The nodes at and below a path, through so many levels. -/
def walkFrom (t : Tree) : (levels : Nat) → Path → List (Path × Node)
  | 0, _ => []
  | levels + 1, path =>
    match t.nodes.get? path with
    | none => []
    | some (.group attributes) =>
      (path, .group attributes) :: (t.children path).flatMap (t.walkFrom levels)
    | some node => [(path, node)]

/-- All the nodes; no path is deeper than there are nodes. -/
def walk (t : Tree) : List (Path × Node) := t.walkFrom t.nodes.size .root

end StudyArchive.Tree
