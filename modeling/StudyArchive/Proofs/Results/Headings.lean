import StudyArchive.Results.Report
/-
# Entries under their headings

A reader of a report takes an entry to belong to the last heading above it (`Report.listings`).  The
entries are all there, each of them once and in the order of their keys.  But a new heading comes
only where the identifier or the number of the execution is another one than before, so that an
entry stands under the name of the method whose entry was the first of those that run on to it
(`Report.lists_entries`).  Where two methods have one identifier, that may be the name of the other
one (`Report.lists_under_other`).
-/

namespace StudyArchive

namespace ReportLine

/-- Whether a line is the heading of an execution. -/
def isHeading : ReportLine → Bool
  | execution .. => true
  | _ => false

/-- Whether an entry begins with a line. -/
def beginsEntry : ReportLine → Bool
  | single _ | array _ _ => true
  | _ => false

/-- Whether a line goes on with what is above it. -/
def goesOn (line : ReportLine) : Bool := !line.isHeading && !line.beginsEntry

end ReportLine

/-- The identifier and the number that a heading tells of an execution. -/
def ResultKey.group (k : ResultKey) : String × Nat := (k.id, k.execution)

/-- The heading with the names of a key. -/
def ResultKey.headline (k : ResultKey) : ReportLine := .execution k.id k.method k.execution

namespace Report

/-! ## Reading a report

Lines of entries begin alike and the lines that go on do not, so a reader can tell where an entry
begins. -/

/-- An entry as it stands in a report. -/
structure Listing where
  /-- The last heading above the entry. -/
  heading : Option ReportLine
  /-- The lines of the entry. -/
  lines : List ReportLine
  deriving DecidableEq

/-- The entries in lines that follow on a heading. -/
def listingsBelow (heading : Option ReportLine) : List ReportLine → List Listing
  | [] => []
  | line :: rest =>
    if line.isHeading then listingsBelow (some line) rest
    else if line.beginsEntry then
      ⟨heading, line :: rest.takeWhile (·.goesOn)⟩ :: listingsBelow heading rest
    else listingsBelow heading rest

/-- The entries of a report, from the top on. -/
def listings (r : List ReportLine) : List Listing := listingsBelow none r

variable {l : Ledger} {heading : Option ReportLine} {front rest : List ReportLine}

/-- Lines that go on belong to what is above them. -/
theorem listingsBelow_append (goOn : ∀ line ∈ front, line.goesOn) :
    listingsBelow heading (front ++ rest) = listingsBelow heading rest := by
  induction front with
  | nil => rfl
  | cons line front ih =>
    obtain ⟨first, others⟩ := List.forall_mem_cons.1 goOn
    simp only [ReportLine.goesOn, Bool.and_eq_true, Bool.not_eq_true'] at first
    rw [List.cons_append, listingsBelow, first.1, first.2]
    exact ih others

theorem goesOn_ofAttributes (indent : Nat) (attributes : List Attribute) :
    ∀ line ∈ ofAttributes indent attributes, line.goesOn := by
  simp [ofAttributes, ReportLine.goesOn, ReportLine.isHeading, ReportLine.beginsEntry]

theorem goesOn_ofValue (indent : Nat) (v : ResultValue) :
    ∀ line ∈ ofValue indent v, line.goesOn := by
  simp [ofValue, ReportLine.goesOn, ReportLine.isHeading, ReportLine.beginsEntry]

theorem goesOn_ofSlots (slots : List (Option ResultValue)) (index : Nat) :
    ∀ line ∈ ofSlots index slots, line.goesOn := by
  induction slots generalizing index with
  | nil => simp [ofSlots]
  | cons slot slots ih =>
    cases slot with
    | none => exact List.forall_mem_cons.2 ⟨rfl, ih (index + 1)⟩
    | some v =>
      exact List.forall_mem_cons.2
        ⟨rfl, List.forall_mem_append.2 ⟨goesOn_ofValue 6 v, ih (index + 1)⟩⟩

/-! ## Entries and headings -/

/-- An entry begins with a line of its own, and the others go on. -/
theorem exists_ofEntry (k : ResultKey) (entry : LedgerEntry) :
    ∃ first body, ofEntry k entry = first :: body ∧ first.isHeading = false ∧
      first.beginsEntry = true ∧ ∀ line ∈ body, line.goesOn := by
  have remarks := goesOn_ofAttributes 4 entry.attributes
  unfold ofEntry
  cases entry.kept with
  | single v =>
    exact ⟨.single k.name, ofValue 4 v ++ ofAttributes 4 entry.attributes, rfl, rfl, rfl,
      List.forall_mem_append.2 ⟨goesOn_ofValue 4 v, remarks⟩⟩
  | array slots =>
    exact ⟨.array k.name slots.length, ofSlots 0 slots ++ ofAttributes 4 entry.attributes, rfl,
      rfl, rfl, List.forall_mem_append.2 ⟨goesOn_ofSlots slots 0, remarks⟩⟩

/-- An entry that nothing goes on after is read with all its lines. -/
theorem listingsBelow_ofEntry (k : ResultKey) (entry : LedgerEntry)
    (ends : ∀ line ∈ rest.head?, line.goesOn = false) :
    listingsBelow heading (ofEntry k entry ++ rest) =
      ⟨heading, ofEntry k entry⟩ :: listingsBelow heading rest := by
  obtain ⟨first, body, eq, plain, begins, goOn⟩ := exists_ofEntry k entry
  have taken : (body ++ rest).takeWhile (·.goesOn) = body := by
    rw [List.takeWhile_append_of_pos goOn]
    cases rest with
    | nil => simp
    | cons line rest => simp [ends line rfl]
  rw [eq, List.cons_append, listingsBelow, plain, begins, taken]
  simp [listingsBelow_append goOn]

theorem listingsBelow_heading (k : ResultKey) :
    listingsBelow heading (Report.heading l k ++ rest) = listingsBelow (some k.headline) rest := by
  have goOn := List.forall_mem_append.2
    ⟨goesOn_ofAttributes 2 ((l.methods.get? k.id).getD []),
      goesOn_ofAttributes 2 ((l.executions.get? (k.id, k.execution)).getD [])⟩
  show listingsBelow (some k.headline) (_ ++ rest) = _
  exact listingsBelow_append goOn

/-- Entries begin with a heading or with an entry. -/
theorem head?_ofEntries (current : Option (String × Nat))
    (entries : List (ResultKey × LedgerEntry)) :
    ∀ line ∈ (ofEntries l current entries).head?, line.goesOn = false := by
  intro line mem
  cases entries with
  | nil => cases mem
  | cons e entries =>
    obtain ⟨k, entry⟩ := e
    obtain ⟨first, body, eq, plain, begins, -⟩ := exists_ofEntry k entry
    rw [ofEntries, eq] at mem
    split at mem
    · obtain rfl : first = line := by simpa using mem
      simp [ReportLine.goesOn, begins]
    · obtain rfl := Option.some.inj mem
      rfl

/-! ## The first of a run

Entries run on as long as identifier and number stay; the heading is that of the first one. -/

/-- The key whose heading a key stands under, after the last one that had a heading. -/
def leader (last : Option ResultKey) (k : ResultKey) : ResultKey :=
  match last with
  | some k' => if k'.group = k.group then k' else k
  | none => k

theorem leader_some (k' k : ResultKey) :
    leader (some k') k = if k'.group = k.group then k' else k := rfl

theorem group_leader (last : Option ResultKey) (k : ResultKey) :
    (leader last k).group = k.group := by
  unfold leader
  split
  · split
    · assumption
    · rfl
  · rfl

/-- For each key the one whose heading it stands under. -/
def leaders (last : Option ResultKey) : List ResultKey → List ResultKey
  | [] => []
  | k :: keys => leader last k :: leaders (some (leader last k)) keys

/-- An entry gets a heading if it does not stand under the last one. -/
theorem listingsBelow_leader (last : Option ResultKey) (k : ResultKey) :
    listingsBelow (last.map (·.headline))
        ((if last.map (·.group) = some k.group then [] else Report.heading l k) ++ rest) =
      listingsBelow (some (leader last k).headline) rest := by
  cases last with
  | none => exact listingsBelow_heading k
  | some k' =>
    simp only [Option.map_some, Option.some_inj, leader_some]
    split
    · rfl
    · exact listingsBelow_heading k

/-- Each entry is read under the heading of its leader. -/
theorem listingsBelow_ofEntries (last : Option ResultKey)
    (entries : List (ResultKey × LedgerEntry)) :
    listingsBelow (last.map (·.headline)) (ofEntries l (last.map (·.group)) entries) =
      List.zipWith (fun k' e => ⟨some k'.headline, ofEntry e.1 e.2⟩)
        (leaders last (entries.map (·.1))) entries := by
  induction entries generalizing last with
  | nil => rfl
  | cons e entries ih =>
    obtain ⟨k, entry⟩ := e
    have ends := head?_ofEntries (l := l) (some k.group) entries
    have more := ih (some (leader last k))
    rw [Option.map_some, Option.map_some, group_leader] at more
    rw [ofEntries, List.append_assoc, List.map_cons, leaders, List.zipWith_cons_cons, ← more,
      ← listingsBelow_ofEntry k entry ends]
    exact listingsBelow_leader last k

theorem length_leaders (last : Option ResultKey) (keys : List ResultKey) :
    (leaders last keys).length = keys.length := by
  induction keys generalizing last with
  | nil => rfl
  | cons k keys ih => rw [leaders, List.length_cons, ih, List.length_cons]

theorem getElem?_leaders_succ {last : Option ResultKey} {keys : List ResultKey} {i : Nat}
    {k k' : ResultKey} (next : keys[i + 1]? = some k) (here : (leaders last keys)[i]? = some k') :
    (leaders last keys)[i + 1]? = some (leader (some k') k) := by
  induction keys generalizing last i with
  | nil => cases next
  | cons first keys ih =>
    rw [leaders, List.getElem?_cons_succ]
    rw [leaders] at here
    cases i with
    | zero =>
      cases keys with
      | nil => cases next
      | cons second keys =>
        cases next
        cases here
        rfl
    | succ i => exact ih next here

/-- The entries from one place on up to another one have the identifier and the number of an
execution in common. -/
def Run (keys : List ResultKey) (j i : Nat) : Prop :=
  ∀ n k k', j ≤ n → n ≤ i → keys[n]? = some k → keys[i]? = some k' → k.group = k'.group

/-- The entry at one place is the first one of those that run on to another place. -/
structure Opens (keys : List ResultKey) (j i : Nat) : Prop where
  le : j ≤ i
  run : Run keys j i
  earliest : ∀ j' < j, ¬Run keys j' i

/-- The leader of an entry is the first one of those that run on to it. -/
theorem exists_leader {keys : List ResultKey} {i : Nat} {k : ResultKey}
    (at_ : keys[i]? = some k) :
    ∃ j k', Opens keys j i ∧ keys[j]? = some k' ∧ (leaders none keys)[i]? = some k' := by
  induction i generalizing k with
  | zero =>
    refine ⟨0, k, ⟨Nat.le_refl 0, ?_, by omega⟩, at_, ?_⟩
    · intro n k₁ k₂ _ low here there
      obtain rfl := Nat.le_zero.1 low
      cases here.symm.trans there
      rfl
    · cases keys with
      | nil => cases at_
      | cons first keys =>
        cases at_
        rfl
  | succ i ih =>
    obtain ⟨low, -⟩ := List.getElem?_eq_some_iff.1 at_
    have before := List.getElem?_eq_getElem (Nat.lt_of_succ_lt low)
    obtain ⟨j, k', ⟨le, run, earliest⟩, first, leads⟩ := ih before
    have led := run j k' _ (Nat.le_refl j) le first before
    have next := getElem?_leaders_succ at_ leads
    rw [leader_some] at next
    -- An entry of its leader's group runs on; one of another group opens its own.
    by_cases same : k'.group = k.group
    · refine ⟨j, k', ⟨Nat.le_succ_of_le le, ?_, ?_⟩, first, next.trans (by rw [if_pos same])⟩
      · intro n k₁ k₂ from_ upto here there
        cases at_.symm.trans there
        rcases Nat.lt_or_eq_of_le upto with inner | rfl
        · exact (run n k₁ _ from_ (Nat.le_of_lt_succ inner) here before).trans
            (led.symm.trans same)
        · cases here.symm.trans at_
          rfl
      · intro j' earlier longer
        refine earliest j' earlier fun n k₁ k₂ from_ upto here there => ?_
        cases before.symm.trans there
        exact (longer n k₁ k from_ (Nat.le_succ_of_le upto) here at_).trans
          (same.symm.trans led)
    · refine ⟨i + 1, k, ⟨Nat.le_refl _, ?_, ?_⟩, at_, next.trans (by rw [if_neg same])⟩
      · intro n k₁ k₂ from_ upto here there
        obtain rfl := Nat.le_antisymm upto from_
        cases here.symm.trans there
        rfl
      · intro j' earlier longer
        have group := longer i _ k (Nat.le_of_lt_succ earlier) (Nat.le_succ i) before at_
        exact same (led.trans group)

/-! ## The order of the names

Keys are ordered, so keys with the same method lie next to each other, unless others have the same
identifier. -/

/-- The names of methods do not descend along the keys. -/
theorem isLE_method {keys : List ResultKey}
    (increasing : keys.Pairwise fun k k' => compare k k' = .lt) {j i : Nat} {k k' : ResultKey}
    (le : j ≤ i) (at_ : keys[j]? = some k) (at_' : keys[i]? = some k') :
    (compare k.method k'.method).isLE := by
  rcases Nat.lt_or_eq_of_le le with lt | rfl
  · obtain ⟨low, rfl⟩ := List.getElem?_eq_some_iff.1 at_
    obtain ⟨low', rfl⟩ := List.getElem?_eq_some_iff.1 at_'
    have below := List.pairwise_iff_getElem.1 increasing _ _ low low' lt
    rcases Ordering.then_eq_lt.1 below with lower | ⟨same, -⟩
    · exact Ordering.isLE_of_eq_lt lower
    · exact Ordering.isLE_of_eq_eq same
  · cases at_.symm.trans at_'
    exact Std.ReflCmp.isLE_rfl

theorem increasing_keys (l : Ledger) :
    l.entries.keys.Pairwise fun k k' => compare k k' = .lt := by
  rw [SortedMap.keys, List.pairwise_map]
  exact l.entries.increasing

/-- Between two keys with one method name all have it. -/
theorem method_eq_of_between {keys : List ResultKey}
    (increasing : keys.Pairwise fun k k' => compare k k' = .lt) {j n i : Nat}
    {first k' k : ResultKey} (low : j ≤ n) (high : n ≤ i) (at_ : keys[j]? = some first)
    (between : keys[n]? = some k') (at_' : keys[i]? = some k) (same : first.method = k.method) :
    k'.method = k.method := by
  have below := isLE_method increasing low at_ between
  have above := isLE_method increasing high between at_'
  rw [same] at below
  exact Std.LawfulEqOrd.eq_of_compare (Std.OrientedCmp.isLE_antisymm above below)

/-! ## The report of a ledger -/

/-- What is said about the study does not count for the entries. -/
theorem listings_ofLedger (l : Ledger) :
    listings (ofLedger l) =
      List.zipWith (fun k' e => ⟨some k'.headline, ofEntry e.1 e.2⟩)
        (leaders none l.entries.keys) l.entries.entries := by
  have entries := listingsBelow_ofEntries (l := l) none l.entries.entries
  have goOn : ∀ line ∈ (if l.study = [] then [] else .study :: ofAttributes 2 l.study),
      line.goesOn := by
    split
    · simp
    · exact List.forall_mem_cons.2 ⟨rfl, goesOn_ofAttributes 2 l.study⟩
  exact (listingsBelow_append goOn).trans entries

/-- A report has each entry once, in the order of the keys.  The last heading above an entry has its
identifier and number, and the method name of the first of the entries that run on to it; which is
its own name exactly if it is the name of all of these. -/
theorem lists_entries (l : Ledger) :
    (listings (ofLedger l)).map (·.lines) = l.entries.entries.map (fun e => ofEntry e.1 e.2) ∧
    ∀ i k, l.entries.keys[i]? = some k →
      ∃ j first heading, Opens l.entries.keys j i ∧ l.entries.keys[j]? = some first ∧
        (listings (ofLedger l))[i]?.map (·.heading) = some (some heading) ∧
        heading.text = s!"Method {k.id} ({first.method}), execution {k.execution}" ∧
        (first.method = k.method ↔ ∀ n k', j ≤ n → n ≤ i →
          l.entries.keys[n]? = some k' → k'.method = k.method) := by
  have increasing := increasing_keys l
  have all := listings_ofLedger l
  refine ⟨?_, fun i k at_ => ?_⟩
  · rw [all, List.map_zipWith]
    refine List.ext_getElem ?_ fun n _ _ => ?_
    · simp [length_leaders, SortedMap.keys]
    · simp
  · obtain ⟨j, first, opens, at_', leads⟩ := exists_leader at_
    obtain ⟨id, execution⟩ : first.id = k.id ∧ first.execution = k.execution :=
      Prod.mk.inj (opens.run j first k (Nat.le_refl j) opens.le at_' at_)
    have entry : ∃ e, l.entries.entries[i]? = some e := by
      rw [SortedMap.keys, List.getElem?_map, Option.map_eq_some_iff] at at_
      exact at_.imp fun _ h => h.1
    obtain ⟨e, entry⟩ := entry
    refine ⟨j, first, first.headline, opens, at_', ?_, ?_, fun same n k' low high between => ?_,
      fun all => all j first (Nat.le_refl j) opens.le at_'⟩
    · rw [all, List.getElem?_zipWith, leads, entry]
      rfl
    · rw [ResultKey.headline, id, execution, ReportLine.text]
    · exact method_eq_of_between increasing low high at_' between at_ same

/-- Two methods with one identifier that have run once. -/
def sharing : Ledger :=
  (({} : Ledger).file (.ofRun ⟨"lhs", "mc", 1⟩ "x") ⟨.single (.text "a"), []⟩).file
    (.ofRun ⟨"sampling", "mc", 1⟩ "x") ⟨.single (.text "b"), []⟩

theorem lists_entries_of_sharing :
    ∃ k, sharing.entries.keys[1]? = some k ∧ k.method = "sampling" ∧
      (listings (ofLedger sharing)).map (·.lines) =
        sharing.entries.entries.map (fun e => ofEntry e.1 e.2) ∧
      ∃ j first heading, Opens sharing.entries.keys j 1 ∧ sharing.entries.keys[j]? = some first ∧
        (listings (ofLedger sharing))[1]?.map (·.heading) = some (some heading) ∧
        heading.text = s!"Method {k.id} ({first.method}), execution {k.execution}" ∧
        (first.method = k.method ↔ ∀ n k', j ≤ n → n ≤ 1 →
          sharing.entries.keys[n]? = some k' → k'.method = k.method) := by
  obtain ⟨once, headings⟩ := lists_entries sharing
  have at_ : sharing.entries.keys[1]? = some (.ofRun ⟨"sampling", "mc", 1⟩ "x") := by
    decide +kernel
  exact ⟨_, at_, rfl, once, headings 1 _ at_⟩

/-- The entry of the second method stands under the name of the first one. -/
theorem lists_under_other :
    ¬∀ (l : Ledger) (i : Nat) (k : ResultKey), l.entries.keys[i]? = some k →
      ((listings (ofLedger l))[i]?.bind (·.heading)).map (·.text) =
        some s!"Method {k.id} ({k.method}), execution {k.execution}" := by
  intro own
  have second := own sharing 1 (.ofRun ⟨"sampling", "mc", 1⟩ "x") (by decide +kernel)
  have lhs : ((listings (ofLedger sharing))[1]?.bind (·.heading)).map (·.text) =
      some "Method mc (lhs), execution 1" := by decide +kernel
  rw [lhs] at second
  exact absurd second (by decide +kernel)

end Report
end StudyArchive
