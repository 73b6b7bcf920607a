/-
# Element types

An element is a number or a string of one of five types, or a record: a list of named fields, each
one element or an array of elements.  The size of a type is the space that one element takes in a
row; a string takes a descriptor of fixed size there.
-/

namespace StudyArchive

/-- The types of single elements. -/
inductive ElementType where
  | int32
  | int64
  | uint64
  | real
  | text
  deriving DecidableEq, Repr

namespace ElementType

/-- The space of one element, in bytes. -/
def size : ElementType → Nat
  | int32 => 4
  | int64 => 8
  | uint64 => 8
  | real => 8
  | text => 16

def name : ElementType → String
  | int32 => "i32"
  | int64 => "i64"
  | uint64 => "u64"
  | real => "f64"
  | text => "string"

/-- The byte that stands for a type. -/
def tag : ElementType → Nat
  | int32 => 0
  | int64 => 1
  | uint64 => 2
  | real => 3
  | text => 4

/-- All the types, in the order of their bytes. -/
def all : List ElementType := [int32, int64, uint64, real, text]

/-- The type that a byte stands for. -/
def ofTag? (n : Nat) : Option ElementType := all.find? (·.tag = n)

/-- The type of a name. -/
def ofName? (s : String) : Option ElementType := all.find? (·.name = s)

theorem ofTag?_tag (e : ElementType) : ofTag? e.tag = some e := by
  cases e <;> rfl

end ElementType

/-- A named field of a record: one element, or an array of a fixed length. -/
structure Field where
  name : String
  element : ElementType
  length : Option Nat
  deriving DecidableEq, Repr

namespace Field

/-- The space of a field, in bytes. -/
def size (f : Field) : Nat := f.element.size * f.length.getD 1

def describe (f : Field) : String :=
  match f.length with
  | some n => s!"{f.name}: [{f.element.name}; {n}]"
  | none => s!"{f.name}: {f.element.name}"

end Field

/-- The type of the elements of a dataset. -/
inductive DataType where
  | scalar (element : ElementType)
  | compound (fields : List Field)
  deriving DecidableEq, Repr

namespace DataType

instance : Inhabited DataType := ⟨.scalar .real⟩

/-- The space of a record's fields, in bytes. -/
def fieldsSize : (fields : List Field) → Nat
  | [] => 0
  | f :: rest => f.size + fieldsSize rest

/-- The space of one element, in bytes. -/
def size : DataType → Nat
  | scalar e => e.size
  | compound fields => fieldsSize fields

def name : DataType → String
  | scalar e => e.name
  | compound fields => "\x7b" ++ ", ".intercalate (fields.map Field.describe) ++ "\x7d"

/-- The element type, unless elements are records. -/
def scalar? : DataType → Option ElementType
  | scalar e => some e
  | compound _ => none

/-- Each field with its place in the row: fields lie one after the other from a given place on. -/
def layout (start : Nat) : List Field → List (Field × Nat)
  | [] => []
  | f :: rest => (f, start) :: layout (start + f.size) rest

/-- The place of the first field with a name among the fields. -/
def fieldIndex? (fields : List Field) (name : String) : Option Nat :=
  fields.findIdx? (·.name = name)

end DataType
end StudyArchive
