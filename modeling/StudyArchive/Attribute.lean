import StudyArchive.Binary64.Decimal
/-
# Attributes

A labelled number or string on a group or a dataset.
-/

namespace StudyArchive

/-- The value of an attribute. -/
inductive AttrValue where
  | int (v : Int64)
  | real (v : Binary64)
  | text (v : String)
  deriving DecidableEq, Repr

namespace AttrValue

instance : Inhabited AttrValue := ⟨int 0⟩

def render : AttrValue → String
  | int v => toString v.toInt
  | real v => v.text
  | text v => v

def ofCount (n : Nat) : AttrValue := int (Int64.ofNat n)

end AttrValue

/-- A labelled value. -/
structure Attribute where
  label : String
  value : AttrValue
  deriving DecidableEq, Repr

end StudyArchive
