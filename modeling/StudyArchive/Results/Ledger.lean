import StudyArchive.Results.Request
import StudyArchive.SortedMap
import StudyArchive.StudyError
import StudyArchive.Table
/-
# Results in memory

A ledger keeps results by execution and name, in the order of their keys, with what is said about
them, about executions, methods and the study.  An entry is one value or an array of slots.
-/

namespace StudyArchive

/-- What an entry is filed under. -/
structure ResultKey where
  method : String
  id : String
  execution : Nat
  /-- The name of the result. -/
  name : String
  deriving DecidableEq, Repr

namespace ResultKey

instance : Ord ResultKey :=
  ⟨compareLex (compareOn (·.method)) <| compareLex (compareOn (·.id)) <|
    compareLex (compareOn (·.execution)) (compareOn (·.name))⟩

instance : Std.TransOrd ResultKey :=
  inferInstanceAs <| Std.TransCmp <|
    compareLex (compareOn ResultKey.method) <| compareLex (compareOn ResultKey.id) <|
      compareLex (compareOn ResultKey.execution) (compareOn ResultKey.name)

instance : Std.LawfulEqOrd ResultKey where
  compare_self := Std.ReflCmp.compare_self
  eq_of_compare {a b} h := by
    obtain ⟨method, rest⟩ := compareLex_eq_eq.1 h
    obtain ⟨id, rest⟩ := compareLex_eq_eq.1 rest
    obtain ⟨execution, name⟩ := compareLex_eq_eq.1 rest
    cases a
    cases b
    cases Std.LawfulEqOrd.eq_of_compare method
    cases Std.LawfulEqOrd.eq_of_compare id
    cases Std.LawfulEqOrd.eq_of_compare execution
    cases Std.LawfulEqOrd.eq_of_compare name
    rfl

/-- The key of a name in an execution. -/
def ofRun (r : MethodRun) (name : String) : ResultKey := ⟨r.method, r.id, r.execution, name⟩

/-- The key of a location in an execution. -/
def ofLocation (r : MethodRun) (location : List String) : ResultKey :=
  ofRun r ("/".intercalate location)

def text (k : ResultKey) : String := s!"{k.method}/{k.id}/{k.execution}/{k.name}"

end ResultKey

/-- What an entry holds. -/
inductive Kept where
  | single (v : ResultValue)
  | array (slots : List (Option ResultValue))
  deriving DecidableEq

structure LedgerEntry where
  kept : Kept
  attributes : List Attribute := []
  deriving DecidableEq

/-- Results in memory. -/
structure Ledger where
  entries : SortedMap ResultKey LedgerEntry := ∅
  /-- What is said about methods, by identifier. -/
  methods : Table String (List Attribute) := ∅
  /-- What is said about executions, by the method's identifier and number. -/
  executions : Table (String × Nat) (List Attribute) := ∅
  /-- What is said about the study. -/
  study : List Attribute := []
  deriving DecidableEq

namespace Ledger

instance : Inhabited Ledger := ⟨{}⟩

def find (l : Ledger) (k : ResultKey) : Except StudyError LedgerEntry :=
  match l.entries.get? k with
  | some entry => .ok entry
  | none => .error (.noEntry k.text)

/-- The slots of the array of a key. -/
def slots (l : Ledger) (k : ResultKey) : Except StudyError (List (Option ResultValue)) := do
  match (← l.find k).kept with
  | .array slots => return slots
  | .single _ => throw (.notArray k.text)

def lookup (l : Ledger) (r : MethodRun) (name : String) : Except StudyError ResultValue := do
  let key := ResultKey.ofRun r name
  match (← l.find key).kept with
  | .single v => return v
  | .array _ => throw (.isArray key.text)

/-- The value in a slot of an array. -/
def lookupAt (l : Ledger) (r : MethodRun) (name : String) (index : Nat) :
    Except StudyError ResultValue := do
  let key := ResultKey.ofRun r name
  let slots ← l.slots key
  match slots[index]? with
  | some (some v) => return v
  | some none => throw (.noEntry s!"{key.text}[{index}]")
  | none => throw (.outOfRange key.text index slots.length)

/-- What is said about the entry of a name. -/
def attributes (l : Ledger) (r : MethodRun) (name : String) :
    Except StudyError (List Attribute) := do
  return (← l.find (.ofRun r name)).attributes

/-- The ledger with an entry in place of the old one. -/
def file (l : Ledger) (k : ResultKey) (entry : LedgerEntry) : Ledger :=
  { l with entries := l.entries.insert k entry }

/-- The ledger with a slot of an array filled. -/
def fillSlot (l : Ledger) (k : ResultKey) (index : Nat) (v : ResultValue) :
    Except StudyError Ledger := do
  let entry ← l.find k
  let slots ← l.slots k
  if index < slots.length then
    return l.file k { entry with kept := .array (slots.set index (some v)) }
  else throw (.outOfRange k.text index slots.length)

/-- A table with attributes added to those of a key. -/
def addTo {κ : Type} [DecidableEq κ] (t : Table κ (List Attribute)) (k : κ)
    (more : List Attribute) : Table κ (List Attribute) :=
  t.insert k ((t.get? k).getD [] ++ more)

/-- Serve a request; scales and transposition are not kept, and no room is kept for vectors and
matrices. -/
def serve (l : Ledger) : ResultRequest → Except StudyError Ledger
  | .insert r location value _ attributes _ =>
    .ok (l.file (.ofLocation r location) ⟨.single value, attributes⟩)
  | .reserve .. | .fill .. | .flush => .ok l
  | .reserveArray r name size =>
    .ok (l.file (.ofRun r name) { kept := .array (List.replicate size none) })
  | .fillArray r name index value => l.fillSlot (.ofRun r name) index value
  | .describeMethod r attributes => .ok { l with methods := addTo l.methods r.id attributes }
  | .describeExecution r attributes =>
    .ok { l with executions := addTo l.executions (r.id, r.execution) attributes }
  | .describeResult r location attributes => do
    let key := ResultKey.ofLocation r location
    let entry ← l.find key
    return l.file key { entry with attributes := entry.attributes ++ attributes }
  | .describeStudy attributes => .ok { l with study := l.study ++ attributes }

end Ledger
end StudyArchive
