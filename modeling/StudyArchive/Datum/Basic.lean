import StudyArchive.Binary64.Basic
import StudyArchive.DataType
/-
# Elements as values

A datum is one element: a number, a string, an array or a record.  Equality of data is equality bit
for bit, so that a stored NaN equals itself; `Datum.equal` compares reals as numbers instead.
-/

namespace StudyArchive

/-- The value of an element. -/
inductive Datum where
  | int (v : Int64)
  | uint (v : UInt64)
  | real (v : Binary64)
  | text (v : String)
  | array (items : List Datum)
  | record (values : List Datum)

namespace Datum

instance : Inhabited Datum := ⟨int 0⟩

mutual

def decEq : (a b : Datum) → Decidable (a = b)
  | int a, int b => decidable_of_iff (a = b) (by simp)
  | uint a, uint b => decidable_of_iff (a = b) (by simp)
  | real a, real b => decidable_of_iff (a = b) (by simp)
  | text a, text b => decidable_of_iff (a = b) (by simp)
  | array a, array b =>
    match decEqList a b with
    | isTrue h => isTrue (by rw [h])
    | isFalse h => isFalse (by simpa using h)
  | record a, record b =>
    match decEqList a b with
    | isTrue h => isTrue (by rw [h])
    | isFalse h => isFalse (by simpa using h)
  | int _, uint _ | int _, real _ | int _, text _ | int _, array _ | int _, record _
  | uint _, int _ | uint _, real _ | uint _, text _ | uint _, array _ | uint _, record _
  | real _, int _ | real _, uint _ | real _, text _ | real _, array _ | real _, record _
  | text _, int _ | text _, uint _ | text _, real _ | text _, array _ | text _, record _
  | array _, int _ | array _, uint _ | array _, real _ | array _, text _ | array _, record _
  | record _, int _ | record _, uint _ | record _, real _ | record _, text _ | record _, array _ =>
    isFalse (by simp)

/-- Equality bit for bit, item by item. -/
def decEqList : (a b : List Datum) → Decidable (a = b)
  | [], [] => isTrue rfl
  | [], _ :: _ => isFalse (by simp)
  | _ :: _, [] => isFalse (by simp)
  | x :: xs, y :: ys =>
    match decEq x y, decEqList xs ys with
    | isTrue h, isTrue t => isTrue (by rw [h, t])
    | isFalse h, _ => isFalse (by simp [h])
    | _, isFalse t => isFalse (by simp [t])

end

instance : DecidableEq Datum := decEq

mutual

/-- Equality with reals compared as numbers. -/
def equal : Datum → Datum → Bool
  | int a, int b => a == b
  | uint a, uint b => a == b
  | real a, real b => a.equal b
  | text a, text b => a == b
  | array a, array b => equalList a b
  | record a, record b => equalList a b
  | _, _ => false

/-- Equality with reals compared as numbers, item by item. -/
def equalList : List Datum → List Datum → Bool
  | [], [] => true
  | x :: xs, y :: ys => equal x y && equalList xs ys
  | _, _ => false

end

def kind : Datum → String
  | int _ => "int"
  | uint _ => "uint"
  | real _ => "real"
  | text _ => "string"
  | array _ => "array"
  | record _ => "record"

def zeroOf : ElementType → Datum
  | .int32 => int 0
  | .int64 => int 0
  | .uint64 => uint 0
  | .real => real .zero
  | .text => text ""

def zero : DataType → Datum
  | .scalar e => zeroOf e
  | .compound fields => record <| fields.map fun f =>
    match f.length with
    | some n => array (List.replicate n (zeroOf f.element))
    | none => zeroOf f.element

/-- Whether an integer fits into 32 bits. -/
def fitsInt32 (v : Int64) : Bool := v.toInt32.toInt64 = v

/-- Whether a value is an element of an element type. -/
def isElement : Datum → ElementType → Bool
  | int v, .int32 => fitsInt32 v
  | int _, .int64 => true
  | uint _, .uint64 => true
  | real _, .real => true
  | text _, .text => true
  | _, _ => false

/-- Whether a value belongs into a field. -/
def isFieldValue (value : Datum) (f : Field) : Bool :=
  match f.length with
  | none => value.isElement f.element
  | some n =>
    match value with
    | array items => items.length = n && items.all (·.isElement f.element)
    | _ => false

/-- Whether a value is an element of a type. -/
def conforms (value : Datum) : DataType → Bool
  | .scalar e => value.isElement e
  | .compound fields =>
    match value with
    | record values =>
      values.length = fields.length && (values.zip fields).all fun (v, f) => v.isFieldValue f
    | _ => false

end Datum
end StudyArchive
