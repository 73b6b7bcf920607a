import StudyArchive.Results.Ledger
/-
# Reports

A report lists a ledger for people to read: what is said about the study, and then the entries in
the order of their keys.  A heading names the execution whenever it is another one than before.
-/

namespace StudyArchive

inductive ReportLine where
  | study
  /-- The heading of an execution. -/
  | execution (id method : String) (number : Nat)
  | remark (indent : Nat) (a : Attribute)
  /-- The name of a single value. -/
  | single (name : String)
  /-- The name of an array. -/
  | array (name : String) (size : Nat)
  /-- The index of a slot; its value follows. -/
  | slot (index : Nat)
  | emptySlot (index : Nat)
  /-- A line of the text of a value. -/
  | value (indent : Nat) (line : String)
  deriving DecidableEq

def ReportLine.text : ReportLine → String
  | study => "Study"
  | execution id method number => s!"Method {id} ({method}), execution {number}"
  | remark indent a => margin indent ++ s!"@{a.label} = {a.value.render}"
  | single name => s!"  {name}:"
  | array name size => s!"  {name} [{size}]:"
  | slot index => s!"    [{index}]"
  | emptySlot index => s!"    [{index}] <empty>"
  | value indent line => margin indent ++ line
where
  margin (n : Nat) : String := String.ofList (List.replicate n ' ')

namespace Report

/-- The lines of a text: a line ends at a line feed, and a carriage return before it belongs to the
end; after the last line feed only a nonempty rest is a line. -/
def linesFrom (line : List Char) : List Char → List (List Char)
  | [] => if line = [] then [] else [line.reverse]
  | c :: rest =>
    if c = '\n' then
      let ended := match line with
        | '\r' :: before => before
        | whole => whole
      ended.reverse :: linesFrom [] rest
    else linesFrom (c :: line) rest

def lines (s : String) : List String := (linesFrom [] s.toList).map String.ofList

def ofAttributes (indent : Nat) (l : List Attribute) : List ReportLine :=
  l.map (.remark indent)

def ofValue (indent : Nat) (v : ResultValue) : List ReportLine :=
  (lines v.render).map (.value indent)

/-- The lines of slots from an index on. -/
def ofSlots (index : Nat) : List (Option ResultValue) → List ReportLine
  | [] => []
  | none :: rest => .emptySlot index :: ofSlots (index + 1) rest
  | some v :: rest => .slot index :: ofValue 6 v ++ ofSlots (index + 1) rest

def ofEntry (k : ResultKey) (entry : LedgerEntry) : List ReportLine :=
  let kept := match entry.kept with
    | .single v => .single k.name :: ofValue 4 v
    | .array slots => .array k.name slots.length :: ofSlots 0 slots
  kept ++ ofAttributes 4 entry.attributes

/-- The heading of an execution and what is said about its method and about it. -/
def heading (l : Ledger) (k : ResultKey) : List ReportLine :=
  .execution k.id k.method k.execution ::
    ofAttributes 2 ((l.methods.get? k.id).getD []) ++
    ofAttributes 2 ((l.executions.get? (k.id, k.execution)).getD [])

/-- The lines of entries, after one of a given execution. -/
def ofEntries (l : Ledger) (current : Option (String × Nat)) :
    List (ResultKey × LedgerEntry) → List ReportLine
  | [] => []
  | (k, entry) :: rest =>
    let here := (k.id, k.execution)
    (if current = some here then [] else heading l k) ++ ofEntry k entry ++
      ofEntries l (some here) rest

def ofLedger (l : Ledger) : List ReportLine :=
  (if l.study = [] then [] else .study :: ofAttributes 2 l.study) ++
    ofEntries l none l.entries.entries

def text (r : List ReportLine) : String := String.join (r.map fun line => line.text ++ "\n")

end Report
end StudyArchive
