import StudyArchive.Binary64.Decimal
/-
# Documents

The data that configuration texts and interchange texts spell: numbers, strings, lists, and objects
with their keys in the order of the text.
-/

namespace StudyArchive

/-- A tree of values. -/
inductive Document where
  | null
  | bool (v : Bool)
  | int (v : Int)
  | real (v : Binary64)
  | text (v : String)
  | list (items : List Document)
  | object (members : List (String × Document))

namespace Document

instance : Inhabited Document := ⟨null⟩

/-- The value of a key, if a document is an object that has it. -/
def get? (d : Document) (key : String) : Option Document :=
  match d with
  | object members => (members.find? (·.1 = key)).map (·.2)
  | _ => none

def items? : Document → Option (List Document)
  | list items => some items
  | _ => none

def text? : Document → Option String
  | text s => some s
  | _ => none

def bool? : Document → Option Bool
  | bool b => some b
  | _ => none

/-- A natural number within a limit. -/
def natBelow? (limit : Nat) : Document → Option Nat
  | int (.ofNat n) => if n < limit then some n else none
  | _ => none

/-- A list of values that are all of one sort. -/
def listOf? {α : Type} (read : Document → Option α) (d : Document) : Option (List α) := do
  (← d.items?).mapM read

/-- One of several values, by its name, which stands alone or is the one key of an object whose
value is null. -/
def named? {α : Type} (values : List α) (name : α → String) : Document → Option α
  | text s => values.find? (name · = s)
  | object [(s, null)] => values.find? (name · = s)
  | _ => none

end Document
end StudyArchive
