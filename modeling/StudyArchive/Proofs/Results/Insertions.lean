import Mathlib.Data.List.Induction
import StudyArchive.Proofs.Path
import StudyArchive.Proofs.Results.Adding
import StudyArchive.Study
/-
# An archive and a ledger side by side

A study that keeps its results in an archive and in a ledger hands each of them to the archive
first, and to the ledger if the archive has taken it.  So the ledger never has a result that the
archive has not: what it keeps under a name is what the typed read gets from the place of the
result.  The archive may have more: what lay there when the study was opened, what a request left
that failed after its result was stored, and a result that has the same place but not the same key
(`Study.insertions_agree`).
-/

namespace StudyArchive

open Archive Dataset

/-- A request to keep a result. -/
structure Insertion where
  run : MethodRun
  location : List String
  value : ResultValue
  scales : List DimScale := []
  attributes : List Attribute := []
  transpose : Bool := false

namespace Insertion

def request (i : Insertion) : ResultRequest :=
  .insert i.run i.location i.value i.scales i.attributes i.transpose

def path (i : Insertion) : Path := i.run.resultPath i.location

def key (i : Insertion) : ResultKey := .ofLocation i.run i.location

def entry (i : Insertion) : LedgerEntry := ⟨.single i.value, i.attributes⟩

end Insertion

/-! ## Keys and places

The place of a result has all that its key has but the name of the method. -/

namespace MethodRun

theorem segments_resultPath (r : MethodRun) (location : List String) :
    (r.resultPath location).segments = r.path.segments ++ location.flatMap Path.parts :=
  r.path.segments_foldl_join location

/-- Results that have one key have one place. -/
theorem resultPath_eq_of_key {r r' : MethodRun} {location location' : List String}
    (same : ResultKey.ofLocation r location = .ofLocation r' location') :
    r.resultPath location = r'.resultPath location' := by
  obtain ⟨-, id, execution, name⟩ := ResultKey.mk.inj same
  have parts := congrArg Path.parts name
  rw [Path.parts_intercalate, Path.parts_intercalate] at parts
  have path : r.path = r'.path := by
    unfold MethodRun.path methodPath
    rw [id, execution]
  apply Path.ext_segments
  rw [segments_resultPath, segments_resultPath, path, parts]

end MethodRun

namespace Ledger

theorem lookup_eq_ok_iff {l : Ledger} {r : MethodRun} {name : String} {v : ResultValue} :
    l.lookup r name = .ok v ↔
      ∃ attributes, l.entries.get? (.ofRun r name) = some ⟨.single v, attributes⟩ := by
  constructor
  · intro looked
    obtain ⟨entry, found, looked⟩ := exists_of_bind_eq_ok looked
    obtain ⟨kept, attributes⟩ := entry
    unfold find at found
    split at found
    · next there =>
      cases found
      cases kept with
      | single w =>
        cases looked
        exact ⟨attributes, there⟩
      | array slots => cases looked
    · cases found
  · rintro ⟨attributes, there⟩
    have found : l.find (.ofRun r name) = .ok ⟨.single v, attributes⟩ := by
      unfold find
      rw [there]
    exact bind_of_eq_ok found _

end Ledger

namespace Study

variable {s s₀ : Study} {a a₀ : Archive} {l : Ledger} {calls : List Insertion} {i j : Insertion}

/-! ## One call -/

/-- A study that keeps its results in an archive and in a ledger. -/
structure KeepsIn (s : Study) (a : Archive) (l : Ledger) : Prop where
  places : ∃ known, s.places = [.archive known, .ledger]
  holdings : s.holdings = ⟨some a, some l⟩

/-- What becomes of a call: either both places keep the result, where the archive had nothing, or it
is refused, and the ledger is as before. -/
inductive Outcome (s : Study) (a : Archive) (l : Ledger) (i : Insertion) : Prop
  | kept {a' : Archive} (answer : (s.serve i.request).2 = none)
      (keeps : (s.serve i.request).1.KeepsIn a' (l.file i.key i.entry))
      (added : Added i.path.IsNear a a') (free : a.tree.at? i.path = none)
      (held : ∃ d, a'.tree.at? i.path = some d ∧ i.value.HeldBy d i.transpose)
  | refused {a' : Archive} (answer : (s.serve i.request).2 ≠ none)
      (keeps : (s.serve i.request).1.KeepsIn a' l) (added : Added i.path.IsNear a a')

theorem KeepsIn.outcome (h : s.KeepsIn a l) (coherent : a.Coherent) (i : Insertion) :
    s.Outcome a l i := by
  obtain ⟨known, places⟩ := h.places
  have added : Ends (Shelf.serve i.request) ⟨a, known⟩
      (fun _ shelf' => Added i.path.IsNear a shelf'.archive)
      (fun _ shelf' => Added i.path.IsNear a shelf'.archive) :=
    Shelf.adds_insert ⟨a, known⟩ coherent.added
  have inserted : Ends (Shelf.serve i.request) ⟨a, known⟩
      (fun _ shelf' => a.tree.at? i.path = none ∧
        ∃ d, shelf'.archive.tree.at? i.path = some d ∧ i.value.HeldBy d i.transpose)
      (fun _ _ => True) := Shelf.ends_insert coherent
  cases ran : Shelf.serve i.request ⟨a, known⟩ with
  | ok _ shelf' =>
    obtain ⟨free, held⟩ := inserted.good_of_eq ran
    have served : ResultPlace.serveAll i.request s.holdings s.places =
        ⟨[.archive shelf'.known, .ledger], ⟨some shelf'.archive, some (l.file i.key i.entry)⟩,
          none⟩ := by
      rw [places, h.holdings]
      simp only [ResultPlace.serveAll, ResultPlace.serve, ran]
      rfl
    refine .kept ?_ ⟨⟨shelf'.known, ?_⟩, ?_⟩ (added.good_of_eq ran) free held <;>
      unfold Study.serve <;> rw [served]
  | error e shelf' =>
    have served : ResultPlace.serveAll i.request s.holdings s.places =
        ⟨[.archive shelf'.known, .ledger], ⟨some shelf'.archive, some l⟩, some (.storage e)⟩ := by
      rw [places, h.holdings]
      simp only [ResultPlace.serveAll, ResultPlace.serve, ran]
    refine .refused ?_ ⟨⟨shelf'.known, ?_⟩, ?_⟩ (added.bad_of_eq ran) <;>
      unfold Study.serve <;> rw [served]
    exact Option.some_ne_none _

/-! ## Calls one after the other

`Course` goes along: what is kept by which call, and which places are occupied. -/

/-- The study after calls, whatever became of each of them. -/
def insertAll (s : Study) (calls : List Insertion) : Study :=
  calls.foldl (fun s i => (s.serve i.request).1) s

theorem insertAll_snoc (s : Study) (calls : List Insertion) (i : Insertion) :
    s.insertAll (calls ++ [i]) = ((s.insertAll calls).serve i.request).1 := by
  rw [insertAll, List.foldl_append]
  rfl

/-- What the study answers to a call after others. -/
def answer (s : Study) (before : List Insertion) (i : Insertion) : Option StudyError :=
  ((s.insertAll before).serve i.request).2

/-- One of the calls was answered with success. -/
def Accepts (s : Study) (calls : List Insertion) (i : Insertion) : Prop :=
  ∃ before, before ++ [i] <+: calls ∧ s.answer before i = none

theorem accepts_snoc :
    s.Accepts (calls ++ [j]) i ↔ s.Accepts calls i ∨ i = j ∧ s.answer calls j = none := by
  constructor
  · rintro ⟨before, call, accepted⟩
    rcases List.prefix_concat_iff.1 call with last | earlier
    · obtain ⟨rfl, same⟩ := List.append_inj' last rfl
      cases same
      exact .inr ⟨rfl, accepted⟩
    · exact .inl ⟨before, earlier, accepted⟩
  · rintro (⟨before, earlier, accepted⟩ | ⟨rfl, accepted⟩)
    · exact ⟨before, earlier.trans (List.prefix_append _ _), accepted⟩
    · exact ⟨calls, List.prefix_rfl, accepted⟩

/-- A dataset lies at a path of the study's archive. -/
def Occupied (s : Study) (q : Path) : Prop :=
  ∃ a d, s.holdings.archive = some a ∧ a.tree.at? q = some d

/-- One of the calls, after given others, brought the first dataset to its place. -/
structure Brings (s : Study) (calls before : List Insertion) (i : Insertion) : Prop where
  call : before ++ [i] <+: calls
  free : ¬(s.insertAll before).Occupied i.path
  occupied : (s.insertAll (before ++ [i])).Occupied i.path

theorem KeepsIn.occupied_iff (h : s.KeepsIn a l) {q : Path} :
    s.Occupied q ↔ ∃ d, a.tree.at? q = some d := by
  unfold Occupied
  rw [h.holdings]
  constructor
  · rintro ⟨_, d, ⟨⟩, found⟩
    exact ⟨d, found⟩
  · rintro ⟨d, found⟩
    exact ⟨a, d, rfl, found⟩

/-- A study after calls, which began with an empty ledger: the entries of the ledger are those of
the calls that were accepted, each of which has its dataset; and a dataset that is new at a place
of results was brought there by a call for it. -/
structure Course (s₀ : Study) (a₀ : Archive) (calls : List Insertion) (a : Archive) (l : Ledger) :
    Prop where
  keeps : (s₀.insertAll calls).KeepsIn a l
  coherent : a.Coherent
  links : ∀ q target, a.tree.nodes.get? q = some (.link target) →
    a₀.tree.nodes.get? q = some (.link target)
  filed : ∀ i, s₀.Accepts calls i → l.entries.get? i.key = some i.entry
  held : ∀ i, s₀.Accepts calls i →
    ∃ d, a.tree.at? i.path = some d ∧ i.value.HeldBy d i.transpose
  only : ∀ key entry, l.entries.get? key = some entry → ∃ i, s₀.Accepts calls i ∧ i.key = key
  brought : ∀ q d, q.segments.head? ≠ some Path.scalesName → a.tree.at? q = some d →
    a₀.tree.at? q = none → ∃ before i, s₀.Brings calls before i ∧ i.path = q

namespace Course

theorem start (h : s₀.KeepsIn a₀ {}) (coherent : a₀.Coherent) : s₀.Course a₀ [] a₀ {} where
  keeps := h
  coherent := coherent
  links _ _ link := link
  filed := by
    rintro i ⟨before, call, -⟩
    simp at call
  held := by
    rintro i ⟨before, call, -⟩
    simp at call
  only _ _ found := by cases found
  brought _ _ _ found none := by cases none.symm.trans found

section
variable (h : s₀.Course a₀ calls a l) {a' : Archive} (added : Added i.path.IsNear a a')

include h added

theorem links_snoc (q target : Path) (link : a'.tree.nodes.get? q = some (.link target)) :
    a₀.tree.nodes.get? q = some (.link target) :=
  h.links q target (added.tree.links q target link)

/-- A result that was accepted before a call is there after it. -/
theorem held_snoc {j : Insertion} (accepted : s₀.Accepts calls j) :
    ∃ d, a'.tree.at? j.path = some d ∧ j.value.HeldBy d j.transpose := by
  obtain ⟨d, found, held⟩ := h.held j accepted
  obtain ⟨d', found', same⟩ := added.tree.kept _ d found
  exact ⟨d', found', held.sameData same⟩

/-- A dataset that is new after a call was brought by it or before it. -/
theorem brought_snoc {l' : Ledger} (keeps : (s₀.insertAll (calls ++ [i])).KeepsIn a' l') (q : Path)
    (d : Dataset) (apart : q.segments.head? ≠ some Path.scalesName)
    (found : a'.tree.at? q = some d) (new : a₀.tree.at? q = none) :
    ∃ before j, s₀.Brings (calls ++ [i]) before j ∧ j.path = q := by
  cases there : a.tree.at? q with
  | some e =>
    obtain ⟨before, j, brings, place⟩ := h.brought q e apart there new
    exact ⟨before, j, ⟨brings.call.trans (List.prefix_append _ _), brings.free, brings.occupied⟩,
      place⟩
  | none =>
    have here : q = i.path := by
      by_contra other
      rw [added.tree.absent q (not_or.2 ⟨other, apart⟩) there] at found
      cases found
    subst here
    refine ⟨calls, i, ⟨List.prefix_rfl, fun occupied => ?_, keeps.occupied_iff.2 ⟨d, found⟩⟩, rfl⟩
    obtain ⟨e, found'⟩ := h.keeps.occupied_iff.1 occupied
    cases there.symm.trans found'

theorem kept (answer : s₀.answer calls i = none)
    (keeps : (s₀.insertAll (calls ++ [i])).KeepsIn a' (l.file i.key i.entry))
    (free : a.tree.at? i.path = none)
    (held : ∃ d, a'.tree.at? i.path = some d ∧ i.value.HeldBy d i.transpose) :
    s₀.Course a₀ (calls ++ [i]) a' (l.file i.key i.entry) := by
  refine ⟨keeps, added.coherent, h.links_snoc added, ?_, ?_, ?_, h.brought_snoc added keeps⟩
  · intro j accepted
    rcases accepts_snoc.1 accepted with earlier | ⟨rfl, -⟩
    · -- Results with one key have one place, and this one's was free.
      have other : i.key ≠ j.key := by
        intro same
        obtain ⟨d, found, -⟩ := h.held j earlier
        rw [Insertion.path, ← MethodRun.resultPath_eq_of_key same] at found
        cases free.symm.trans found
      exact (SortedMap.get?_insert_of_ne _ _ other).trans (h.filed j earlier)
    · exact SortedMap.get?_insert_self ..
  · intro j accepted
    rcases accepts_snoc.1 accepted with earlier | ⟨rfl, -⟩
    · exact h.held_snoc added earlier
    · exact held
  · intro key entry found
    by_cases here : i.key = key
    · exact ⟨i, accepts_snoc.2 (.inr ⟨rfl, answer⟩), here⟩
    · have found := (SortedMap.get?_insert_of_ne _ _ here).symm.trans found
      obtain ⟨j, accepted, same⟩ := h.only key entry found
      exact ⟨j, accepts_snoc.2 (.inl accepted), same⟩

theorem refused (answer : s₀.answer calls i ≠ none)
    (keeps : (s₀.insertAll (calls ++ [i])).KeepsIn a' l) :
    s₀.Course a₀ (calls ++ [i]) a' l := by
  have earlier {j : Insertion} : s₀.Accepts (calls ++ [i]) j ↔ s₀.Accepts calls j :=
    accepts_snoc.trans (or_iff_left fun last => answer last.2)
  refine ⟨keeps, added.coherent, h.links_snoc added, ?_, ?_, ?_, h.brought_snoc added keeps⟩
  · intro j accepted
    exact h.filed j (earlier.1 accepted)
  · intro j accepted
    exact h.held_snoc added (earlier.1 accepted)
  · intro key entry found
    obtain ⟨j, accepted, same⟩ := h.only key entry found
    exact ⟨j, earlier.2 accepted, same⟩

end

theorem snoc (h : s₀.Course a₀ calls a l) (i : Insertion) :
    ∃ a' l', s₀.Course a₀ (calls ++ [i]) a' l' := by
  cases h.keeps.outcome h.coherent i with
  | kept answer keeps added free held =>
    rw [← insertAll_snoc] at keeps
    exact ⟨_, _, h.kept added answer keeps free held⟩
  | refused answer keeps added =>
    rw [← insertAll_snoc] at keeps
    exact ⟨_, _, h.refused added answer keeps⟩

theorem exists_course (h : s₀.KeepsIn a₀ {}) (coherent : a₀.Coherent) (calls : List Insertion) :
    ∃ a l, s₀.Course a₀ calls a l := by
  induction calls using List.reverseRecOn with
  | nil => exact ⟨a₀, {}, start h coherent⟩
  | append_singleton calls i ih =>
    obtain ⟨a, l, course⟩ := ih
    exact course.snoc i

end Course

/-! ## The two places -/

/-- A study that was opened with an archive and a ledger keeps its results in both. -/
theorem keepsIn_of_openFile {disk : Disk} {config : StudyConfig} {stamp : Stamp}
    (opened : (openFile disk config stamp).result = .ok s) (archived : config.archived = true)
    (remembered : config.remembered = true) : ∃ a, s.KeepsIn a {} ∧ a.Coherent := by
  unfold openFile at opened
  simp only [archived, remembered, if_true] at opened
  split at opened
  · cases opened
  · cases result : (Archive.openFile disk config.storage stamp).result with
    | error e =>
      rw [result] at opened
      cases opened
    | ok a =>
      rw [result] at opened
      cases opened
      exact ⟨a, ⟨⟨[], rfl⟩, rfl⟩, coherent_of_openFile result⟩

/-- Why an archive has something at the place of a result that the ledger does not have. -/
inductive Stray (s : Study) (calls : List Insertion) (r : MethodRun) (location : List String) : Prop
  /-- It, or a link, was there before the calls. -/
  | found {a : Archive} {node : Node} (archive : s.holdings.archive = some a)
      (there : a.tree.nodes.get? (r.resultPath location) = some node) (kind : node.kind ≠ .group)
  /-- A call that was refused left it. -/
  | refused {before : List Insertion} {i : Insertion} (brings : s.Brings calls before i)
      (place : i.path = r.resultPath location) (refused : s.answer before i ≠ none)
  /-- It has another key in the ledger. -/
  | other {before : List Insertion} {i : Insertion} (brings : s.Brings calls before i)
      (place : i.path = r.resultPath location) (accepted : s.answer before i = none)
      (key : i.key ≠ .ofLocation r location)

/-- After any calls of a study with an archive and a ledger, whatever became of them: under the key
of a result that was accepted the ledger has exactly what the typed read, with the flag of its call,
gets from the place of the result; under any other key it has nothing, and if the archive has
something at the place, then that was there before or was left by a call that was refused or has
another key. -/
theorem insertions_agree {disk : Disk} {config : StudyConfig} {stamp : Stamp}
    (opened : (openFile disk config stamp).result = .ok s) (archived : config.archived = true)
    (remembered : config.remembered = true) (calls : List Insertion) :
    ∃ a l, (s.insertAll calls).holdings = ⟨some a, some l⟩ ∧
      ∀ (r : MethodRun) (location : List String),
        (∀ i, s.Accepts calls i → i.key = .ofLocation r location →
          l.lookup r ("/".intercalate location) = .ok i.value ∧
          ∀ v : ResultValue, l.lookup r ("/".intercalate location) = .ok v ↔
            v.ReadFrom a (r.resultPath location) i.transpose) ∧
        ((∀ i, s.Accepts calls i → i.key ≠ .ofLocation r location) →
          (∀ v, l.lookup r ("/".intercalate location) ≠ .ok v) ∧
          ∀ (v : ResultValue) transpose, v.ReadFrom a (r.resultPath location) transpose →
            s.Stray calls r location) := by
  obtain ⟨a₀, keeps₀, coherent₀⟩ := keepsIn_of_openFile opened archived remembered
  obtain ⟨a, l, course⟩ := Course.exists_course keeps₀ coherent₀ calls
  refine ⟨a, l, course.keeps.holdings, ?_⟩
  intro r location
  refine ⟨?_, fun none => ⟨?_, ?_⟩⟩
  · intro i accepted key
    have filed := course.filed i accepted
    rw [key] at filed
    have looked : l.lookup r ("/".intercalate location) = .ok i.value :=
      Ledger.lookup_eq_ok_iff.2 ⟨i.attributes, filed⟩
    obtain ⟨d, found, held⟩ := course.held i accepted
    rw [Insertion.path, MethodRun.resultPath_eq_of_key key] at found
    refine ⟨looked, ?_⟩
    intro v
    rw [held.readFrom_iff course.coherent found, looked]
    exact ⟨fun same => (Except.ok.inj same).symm, fun same => congrArg _ same.symm⟩
  · intro v looked
    obtain ⟨attributes, found⟩ := Ledger.lookup_eq_ok_iff.1 looked
    obtain ⟨i, accepted, key⟩ := course.only _ _ found
    exact none i accepted key
  · intro v transpose read
    obtain ⟨id, denotes, -⟩ := RowValue.ReadWhole.found read course.coherent
    have archive : s.holdings.archive = some a₀ := congrArg Holdings.archive keeps₀.holdings
    rcases Tree.node_of_denoted? denotes with ⟨target, link⟩ | node
    · exact .found archive (course.links _ target link) nofun
    · have known := course.coherent.ready.sound.lt_of_denoted? denotes
      have found := (Tree.at?_of_node node).trans (Tree.getElem?_of_lt known)
      cases there : a₀.tree.at? (r.resultPath location) with
      | some d =>
        obtain ⟨id₀, node₀, -⟩ := Tree.at?_eq_some.1 there
        exact .found archive node₀ nofun
      | none =>
        have apart : (r.resultPath location).segments.head? ≠ some Path.scalesName := by
          rw [r.head?_resultPath]
          decide
        obtain ⟨before, i, brings, place⟩ := course.brought _ _ apart found there
        cases answer : s.answer before i with
        | none => exact .other brings place answer (none i ⟨before, brings.call, answer⟩)
        | some e => exact .refused brings place (answer ▸ Option.some_ne_none e)

/-- An archive and a ledger, the file being new or an old one. -/
def sideBySide (mode : FileMode) : StudyConfig := { storage := { mode }, remembered := true }

/-- A result without scales. -/
def remark : Insertion := { run := sampling, location := ["note"], value := .text "done" }

/-- The result with a scale for a dimension that it does not have. -/
def mislabelled : Insertion := { remark with scales := [⟨0, "side", .vector .text [], false⟩] }

/-- The result with another name of the method. -/
def renamed : Insertion := { remark with run := ⟨"scanning", "mc", 1⟩ }

theorem insertions_agree_of_renamed :
    ∃ s, (openFile default (sideBySide .truncate) default).result = .ok s ∧
      (sideBySide .truncate).archived = true ∧ (sideBySide .truncate).remembered = true ∧
      s.Accepts [remark, renamed] remark ∧
      (∀ i, s.Accepts [remark, renamed] i → i.key ≠ renamed.key) ∧
      ∃ a l, (s.insertAll [remark, renamed]).holdings = ⟨some a, some l⟩ ∧
        (l.lookup remark.run "note" = .ok remark.value ∧
          ∀ v : ResultValue, l.lookup remark.run "note" = .ok v ↔
            v.ReadFrom a remark.path remark.transpose) ∧
        (∀ v, l.lookup renamed.run "note" ≠ .ok v) ∧
        ∀ (v : ResultValue) transpose, v.ReadFrom a renamed.path transpose →
          s.Stray [remark, renamed] renamed.run renamed.location := by
  have ready : (openFile default (sideBySide .truncate) default).result.toOption.any
      fun s => (s.answer [] remark).isNone ∧ (s.answer [remark] renamed).isSome := by
    decide +kernel
  obtain ⟨s, opened, ready⟩ := (Option.any_eq_true ..).1 ready
  obtain ⟨first, second⟩ := of_decide_eq_true ready
  have opened := eq_ok_of_toOption opened
  have accepts {i : Insertion} : s.Accepts [remark, renamed] i ↔ i = remark := by
    have none : ¬s.Accepts [] i := by
      rintro ⟨before, call, -⟩
      simp at call
    rw [show [remark, renamed] = ([] ++ [remark]) ++ [renamed] from rfl, accepts_snoc,
      accepts_snoc]
    constructor
    · rintro ((earlier | ⟨rfl, -⟩) | ⟨-, accepted⟩)
      · exact absurd earlier none
      · rfl
      · rw [List.nil_append] at accepted
        rw [accepted] at second
        cases second
    · rintro rfl
      exact .inl (.inr ⟨rfl, Option.isNone_iff_eq_none.1 first⟩)
  have apart (i : Insertion) (accepted : s.Accepts [remark, renamed] i) : i.key ≠ renamed.key := by
    rw [accepts.1 accepted]
    decide
  obtain ⟨a, l, holdings, agree⟩ := insertions_agree opened rfl rfl [remark, renamed]
  exact ⟨s, opened, rfl, rfl, accepts.2 rfl, apart, a, l, holdings,
    (agree remark.run ["note"]).1 remark (accepts.2 rfl) rfl,
    (agree renamed.run ["note"]).2 apart⟩

/-- The ledger has a result of the calls just if the typed read gets it from its place, with the
flag of its call. -/
def Mirrored (s : Study) (calls : List Insertion) : Prop :=
  ∀ a l, (s.insertAll calls).holdings = ⟨some a, some l⟩ → ∀ i ∈ calls, ∀ v : ResultValue,
    l.lookup i.run ("/".intercalate i.location) = .ok v ↔ v.ReadFrom a i.path i.transpose

/-- Whether the archive has a text at the place of a result, and the ledger nothing. -/
def lacksText (s : Study) (i : Insertion) : Bool :=
  match s.holdings with
  | ⟨some a, some l⟩ => (a.readScalar i.path .text).toOption.isSome &&
      (l.lookup i.run ("/".intercalate i.location)).toOption.isNone
  | _ => false

theorem not_mirrored (mem : i ∈ calls) (lacks : (s.insertAll calls).lacksText i = true) :
    ¬s.Mirrored calls := by
  intro mirrored
  unfold lacksText at lacks
  split at lacks
  · next a l holdings =>
    obtain ⟨some, none⟩ := Bool.and_eq_true_iff.1 lacks
    obtain ⟨v, read⟩ := Option.isSome_iff_exists.1 some
    have looked := (mirrored a l holdings i mem (.text v)).2 (eq_ok_of_toOption read)
    rw [looked] at none
    cases none
  · cases lacks

/-- The two places do not have the same results after a call that failed on its scale, after a call
for the place of another result, and after one for a place that the file had before. -/
theorem insertions_differ :
    ∃ s, (openFile default (sideBySide .truncate) default).result = .ok s ∧
      ¬s.Mirrored [mislabelled] ∧ ¬s.Mirrored [remark, renamed] ∧
      ∃ a s', (s.insertAll [remark]).holdings.archive = some a ∧
        (openFile a.close.mounted.disk (sideBySide .append) default).result = .ok s' ∧
        ¬s'.Mirrored [remark] := by
  have ready : (openFile default (sideBySide .truncate) default).result.toOption.any fun s =>
      (s.insertAll [mislabelled]).lacksText mislabelled ∧
      (s.insertAll [remark, renamed]).lacksText renamed ∧
      (s.insertAll [remark]).holdings.archive.any fun a =>
        (openFile a.close.mounted.disk (sideBySide .append) default).result.toOption.any fun s' =>
          (s'.insertAll [remark]).lacksText remark := by
    decide +kernel
  obtain ⟨s, opened, ready⟩ := (Option.any_eq_true ..).1 ready
  obtain ⟨scale, name, ready⟩ := of_decide_eq_true ready
  obtain ⟨a, archive, ready⟩ := (Option.any_eq_true ..).1 ready
  obtain ⟨s', reopened, old⟩ := (Option.any_eq_true ..).1 ready
  have opened := eq_ok_of_toOption opened
  have reopened := eq_ok_of_toOption reopened
  refine ⟨s, opened, not_mirrored List.mem_cons_self scale, not_mirrored ?_ name, a, s', archive,
    reopened, not_mirrored List.mem_cons_self old⟩
  exact List.mem_cons_of_mem _ List.mem_cons_self

end Study
end StudyArchive
