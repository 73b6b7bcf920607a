import StudyArchive.Path
/-
# File names

A file name spells a way: it begins at the folder where names begin, or at the outermost folder, and
goes from folder to folder.  Where it leads depends on the disk, since a folder must be there to be
left again.
-/

namespace StudyArchive

/-- A step of a way. -/
inductive Step where
  | stay
  | up
  | into (name : String)
  deriving DecidableEq, Repr

namespace Step

/-- The step that a part of a name spells. -/
def ofPart (s : String) : Step :=
  if s = "." then stay else if s = ".." then up else into s

/-- Whether a step leads to a name longer than a name may be. -/
def isTooLong : Step → Bool
  | into name => 255 < name.utf8ByteSize
  | _ => false

end Step

/-- A file name, as written. -/
structure FileName where
  text : String
  deriving DecidableEq, Repr

namespace FileName

/-- Whether the way begins at the outermost folder. -/
def fromTop (n : FileName) : Bool := n.text.toList.head? = some '/'

/-- The steps of the way; empty parts of the name are none. -/
def steps (n : FileName) : List Step := (Path.parts n.text).map Step.ofPart

/-- Whether a name ends like that of a folder. -/
def asFolder (n : FileName) : Bool := n.text.toList.getLast? = some '/'

/-- Whether a name holds the character that no name may hold. -/
def isUnwritable (n : FileName) : Bool := n.text.toList.contains '\x00'

/-- Whether a name takes more bytes than a name may take. -/
def isTooLong (n : FileName) : Bool := 4096 ≤ n.text.utf8ByteSize

/-! ## The folders around

The folders around a name are found in its text alone, from the end, before anything is known of
the disk. -/

/-- A text, last character first, without the marks and the lone points at its end. -/
def trimmed : List Char → List Char
  | '/' :: rest => trimmed rest
  | '.' :: '/' :: rest => trimmed rest
  | cs => cs

/-- The name of the folder around what a name denotes, as far as it is written. -/
def folder (n : FileName) : FileName :=
  let before := (trimmed n.text.toList.reverse).dropWhile (· ≠ '/')
  ⟨String.ofList (trimmed before).reverse⟩

/-- A name and the names of the folders around, innermost first, as many as the fuel lasts. -/
def outward : (fuel : Nat) → FileName → List FileName
  | 0, _ => []
  | fuel + 1, n => if n.text = "" then [] else n :: outward fuel n.folder

/-- A name and the names of the folders around, innermost first.  Each is shorter than the one
before, so the length of the first is fuel enough. -/
def around (n : FileName) : List FileName := outward n.text.length n

end FileName
end StudyArchive
