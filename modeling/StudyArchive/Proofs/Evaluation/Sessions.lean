import StudyArchive.Proofs.Archive.Sessions
import StudyArchive.Proofs.Evaluation.Allocating
import StudyArchive.Proofs.Evaluation.Arrivals
import StudyArchive.Proofs.Evaluation.Extents
import StudyArchive.Proofs.Evaluation.History
/-
# Runs over sessions

Evaluations of a producer may be stored in two sessions: when all those of the first session are
answered, the archive is closed, opened again to go on with it, and the producer is allocated by the
same evaluation.  The producer is enabled then, and what is stored in the end is what one session
would have stored (`Recording.split_irrelevant`).

As long as conforming evaluations are stored, all parts of a producer's schema have equally many
rows of its shape (`Recording.Running`).  So they have in the archive that is opened again, whose
tree is the one that was closed; the comparison with the schema accepts them, and from there on the
two recordings go abreast.
-/

namespace StudyArchive

open EvaluationLayout

/-- A call for an evaluation of a producer that conforms to a schema. -/
def StoreCall.Conforms (p : Producer) (s : EvaluationSchema) : StoreCall → Prop
  | storeVariables q x => q = p ∧ s.inputDrift? x.active x.values = none
  | storeResponse q _ response => q = p ∧ s.responseDrift? response = none
  | _ => False

theorem EvaluationSchema.counts_of_capture {p : Producer} {inputs : Variables}
    {response : Response} {active : ActiveSet} {s : EvaluationSchema}
    (h : capture p inputs response active = .ok s) : s.variableCounts = inputs.counts := by
  obtain ⟨_, -, h⟩ := exists_of_bind_eq_ok h
  cases h
  rfl

/-- Where the parts below a group changed, so did their extents. -/
theorem Archive.Reworked.extents {a a' : Archive} {root : Path} {change : PartChange}
    {f : List Nat → List Nat} (h : Reworked root change a a') (laid : a.LaidOut)
    (each : ∀ part d d', change part d d' → d'.dims = f d.dims) (part : EvaluationPart) :
    a'.extents root part = (a.extents root part).map f := by
  unfold Archive.extents
  cases found : a.at? (part.path root) with
  | none => rw [h.none laid found]; rfl
  | some d =>
    obtain ⟨d', found', changed⟩ := h.parts part d found
    rw [found', Option.map_some, Option.map_some, Option.map_some, each part d d' changed]

/-- A response that conforms does not cost its producer's further evaluations. -/
theorem EvaluationStore.fate_of_conforms {t : EvaluationStore} {x : Arrival}
    {record : ProducerRecord} (known : t.producers.get? x.producer = some record)
    (conforms : record.schema.responseDrift? x.response = none) :
    (t.fate x).disables = false := by
  unfold fate
  split
  · rw [known]
    cases t.slots.get? x.key with
    | none => rfl
    | some row =>
      show (record.fate x row).disables = false
      unfold ProducerRecord.fate
      rw [if_pos conforms]
      split <;> rfl
  · rfl

namespace Recording

variable {r r' : Recording} {p : Producer} {s : EvaluationSchema}

/-- A call that succeeds goes its way record by record. -/
theorem Sound.way_of_ran (sound : r.Sound) {c : StoreCall} (proper : c.IsProper)
    (ran : c.run r = .ok () r') : Archive.Passes (fun _ => True) r.archive r'.archive := by
  have way := sound.way_after c proper (StoreCall.overflows_of_ran ran)
  rw [StoreCall.after_of_ran ran] at way
  exact way.mono fun _ _ => trivial

/-- A recording in which evaluations of a producer are stored by a schema: of each part that the
schema has, and of no other one, there is a dataset with a row for each of them. -/
structure Running (r : Recording) (p : Producer) (s : EvaluationSchema) : Prop where
  sound : r.Sound
  selected : r.store.selects p = true
  known : r.store.producers.get? p = some ⟨s, ofSchema p s, false⟩
  extents : ∃ n, ∀ part : EvaluationPart,
    r.archive.extents p.root part = (part.shape? s).map (n :: ·)

/-! ## Allocating

Allocating again finds what the first session made, and with the same schema no drift. -/

section
variable {inputs : Variables} {response : Response} {active : ActiveSet} (laid : r.archive.LaidOut)
  (proper : p.IsProper) (selected : r.store.selects p = true)
  (unknown : r.store.producers.get? p = none)
  (captured : EvaluationSchema.capture p inputs response active = .ok s)

include laid proper selected unknown captured

/-- A producer that has no datasets gets those of its schema. -/
theorem ends_allocate_made (even : inputs.Even)
    (absent : ∀ part : EvaluationPart, r.archive.at? (part.path p.root) = none) :
    Ends (allocate p inputs response active) r
      (fun _ r' => r'.store.selects p = true ∧
        r'.store.producers.get? p = some ⟨s, ofSchema p s, false⟩ ∧
        ∀ part : EvaluationPart, r'.archive.extents p.root part = (part.shape? s).map (0 :: ·))
      (fun _ _ => True) := by
  have hr := Producer.segments_root proper
  have contains : r.archive.contains (ofSchema p s).ids = false := by
    have contains := laid.contains_eq hr .ids
    rwa [absent] at contains
  refine ends_allocate_of_captured selected unknown captured (ends_prepare_of
    (fun there _ _ => ?_) (fun _ _ _ => trivial) fun _ =>
      ends_of_forall (fun _ a made => ⟨selected, ?_, fun part => ?_⟩) fun _ _ _ => trivial)
  · cases contains.symm.trans there
  · exact (Table.get?_insert ..).trans (if_pos rfl)
  · have makes := Archive.makes_createEvaluations (q := part) (r := response) hr
      (EvaluationSchema.counts_of_capture captured) even
    have extents := (makes.extents r.archive laid).good_of_eq made
    have none : r.archive.extents p.root part = none := by rw [Archive.extents, absent]; rfl
    rwa [none] at extents

/-- A producer whose datasets have the extents of its schema is taken up again as it is. -/
theorem ends_allocate_found {n : Nat} (extents : ∀ part : EvaluationPart,
      r.archive.extents p.root part = (part.shape? s).map (n :: ·)) :
    Ends (allocate p inputs response active) r
      (fun _ r' => r' = { r with store := { r.store with
        producers := r.store.producers.insert p ⟨s, ofSchema p s, false⟩ } })
      (fun _ _ => False) := by
  have hr := Producer.segments_root proper
  obtain ⟨four, -⟩ := EvaluationSchema.fits_of_capture captured
  have agrees := laid.drift_eq_none hr four extents
  have contains : r.archive.contains (ofSchema p s).ids = true := by
    obtain ⟨d, found, -⟩ := Option.map_eq_some_iff.1 (extents .ids)
    have contains := laid.contains_eq hr .ids
    rwa [found] at contains
  refine ends_allocate_of_captured selected unknown captured (ends_prepare_of
    (fun _ mismatch compared => ?_) (fun _ e failed => ?_) fun absent => ?_)
  · cases agrees.symm.trans compared
    simp only [Option.toList_none, List.map_nil, List.append_nil, Option.isSome_none]
  · cases agrees.symm.trans failed
  · cases contains.symm.trans absent

end

/-! ## Storing evaluations

A conforming evaluation takes the way on which rows are appended, and its response the way on
which they are written. -/

namespace Running

variable (running : r.Running p s)

include running

/-- Inputs that conform are appended to every part. -/
theorem ends_storeVariables {x : EvaluationInputs}
    (conforms : s.inputDrift? x.active x.values = none) :
    Ends (storeVariables p x.id x.active x.values) r (fun _ r' => r'.Running p s)
      (fun _ _ => True) := by
  obtain ⟨fits, -⟩ := running.sound.known p _ running.known
  have hr := Producer.segments_root fits.proper
  have laid := running.sound.laidOut
  obtain ⟨n, extents⟩ := running.extents
  have stores : Ends (storeVariables p x.id x.active x.values) r
      (fun _ r' => r'.store.selects p = true ∧ r'.store.producers = r.store.producers ∧
        ∀ part : EvaluationPart,
          r'.archive.extents p.root part = (part.shape? s).map ((n + 1) :: ·)) fun _ _ => True := by
    have drift := laid.drift_eq_none hr fits.four extents
    obtain ⟨n', counted, dims⟩ := laid.dims_of_drift hr fits.four drift
    have column : some [n'] = some [n] := (dims .ids).symm.trans (extents .ids)
    obtain rfl : n' = n := by simpa using column
    have the {record} (known : r.store.producers.get? p = some record) :
        record = ⟨s, ofSchema p s, false⟩ := Option.some.inj (known.symm.trans running.known)
    refine ends_storeVariables_of (fun unselected => ?_) (fun _ => trivial)
      (fun record known disabled => ?_) (fun record reason known _ strays => ?_)
      (fun _ _ _ _ => trivial) fun record n' known _ _ ascending _ counted' => ?_
    · cases running.selected.symm.trans unselected
    · obtain rfl := the known
      cases disabled
    · obtain rfl := the known
      rcases strays with strays | strays
      · cases conforms.symm.trans strays
      · cases drift.symm.trans strays
    · obtain rfl := the known
      obtain rfl := Except.ok.inj (counted.symm.trans counted')
      have fit := EvaluationInputs.fit_of_checks conforms (Producer.ascending_of_check ascending)
      refine (Archive.ends_appendInputs laid hr fit dims).mono ?_ fun _ _ _ => trivial
      rintro _ a ⟨appended, -⟩
      refine ⟨running.selected, rfl, fun part => ?_⟩
      have more := appended.extents (f := fun dims => (dims.head?.getD 1 + 1) :: dims.tail) laid
        (fun _ _ _ appended => appended.dims) part
      rw [more, extents, Option.map_map]
      rfl
  refine ((Recording.ends_storeVariables running.sound x).and stores).mono ?_ fun _ _ _ => trivial
  rintro _ r' ⟨ended, selected, producers, extents⟩
  exact ⟨running.sound.inputsEnd ended, selected, producers ▸ running.known, n + 1, extents⟩

/-- A response that conforms leaves its producer's further evaluations to be stored. -/
theorem arrived {x : Arrival} (own : x.producer = p)
    (conforms : s.responseDrift? x.response = none) : (x.after r).Running p s := by
  subst own
  have settled := running.sound.settled x
  have goes := EvaluationStore.fate_of_conforms running.known conforms
  refine ⟨running.sound.arrived x, (settled.selects _).trans running.selected, ?_, ?_⟩
  · have kept := settled.producers x.producer
    rw [goes, if_neg fun both => Bool.false_ne_true both.1] at kept
    exact kept.trans running.known
  · obtain ⟨n, extents⟩ := running.extents
    refine ⟨n, fun part => ?_⟩
    rcases running.sound.touched_or x with same | ⟨i, -, touched⟩
    · rw [same, extents]
    · have kept := touched.extents (f := id) running.sound.laidOut
        (fun _ _ _ touched => touched.dims) part
      rw [kept, extents, Option.map_id, id]

/-- A call for a conforming evaluation that succeeds. -/
theorem ran {c : StoreCall} (conforms : c.Conforms p s) (ran : c.run r = .ok () r') :
    r'.Running p s ∧ Archive.Passes (fun _ => True) r.archive r'.archive := by
  obtain ⟨fits, -⟩ := running.sound.known p _ running.known
  cases c with
  | storeVariables q x =>
    obtain ⟨rfl, conforms⟩ := conforms
    exact ⟨(running.ends_storeVariables conforms).good_of_eq ran,
      running.sound.way_of_ran (c := .storeVariables q x) fits.proper ran⟩
  | storeResponse q id response =>
    obtain ⟨rfl, conforms⟩ := conforms
    have after : Arrival.after r ⟨q, id, response⟩ = r' := congrArg stateAfter ran
    exact ⟨after ▸ running.arrived rfl conforms,
      running.sound.way_of_ran (c := .storeResponse q id response) fits.proper ran⟩
  | _ => exact conforms.elim

/-- Calls for conforming evaluations that succeed. -/
theorem ran_all {calls : List StoreCall} (conform : ∀ c ∈ calls, c.Conforms p s)
    (ran : calls.forM StoreCall.run r = .ok () r') :
    r'.Running p s ∧ Archive.Passes (fun _ => True) r.archive r'.archive := by
  induction calls generalizing r r' with
  | nil =>
    cases ran
    exact ⟨running, .refl⟩
  | cons c calls ih =>
    obtain ⟨_, r₁, first, rest⟩ := exists_of_step_eq_ok ran
    obtain ⟨running₁, way⟩ := running.ran (conform c (List.mem_cons_self ..)) first
    obtain ⟨running₂, way'⟩ := ih running₁ (fun c' mem => conform c' (List.mem_cons_of_mem c mem))
      rest
    exact ⟨running₂, way.trans way'⟩

end Running

/-! ## Two sessions

The tree of the archive that was opened again is that of the one which was closed, so the two go
abreast from there. -/

/-- Two recordings abreast store the same evaluations. -/
theorem Abreast.run {a₀ b₀ : Archive} {t : Recording} (h : Abreast (· = p) a₀ b₀ r t)
    {calls : List StoreCall} (conform : ∀ c ∈ calls, c.Conforms p s) :
    Together (Abreast (· = p) a₀ b₀) (calls.forM StoreCall.run) (calls.forM StoreCall.run) r t := by
  refine .forM h fun c mem r' t' h' => ?_
  have conforms := conform c mem
  cases c with
  | storeVariables q x => exact h'.storeVariables conforms.1 x
  | storeResponse q id response => exact h'.storeResponse conforms.1 id response
  | _ => exact conforms.elim

/-- Evaluations of a producer that is not stored are passed over. -/
theorem run_of_unselected (unselected : r.store.selects p = false) {calls : List StoreCall}
    (conform : ∀ c ∈ calls, c.Conforms p s) : calls.forM StoreCall.run r = .ok () r := by
  induction calls with
  | nil => rfl
  | cons c calls ih =>
    have passed : c.run r = .ok () r := by
      have conforms := conform c (List.mem_cons_self ..)
      have skip {act : Action Unit} :
          (if r.store.selects p = true then act else pure ()) r = .ok () r := by
        rw [unselected]
        rfl
      cases c with
      | storeVariables q x => exact conforms.1 ▸ skip
      | storeResponse q id response => exact conforms.1 ▸ skip
      | _ => exact conforms.elim
    exact (bind_eq_of_ok passed _).trans (ih fun c' mem => conform c' (List.mem_cons_of_mem c mem))

section
variable {inputs : Variables} {response : Response} {active : ActiveSet}
  (captured : EvaluationSchema.capture p inputs response active = .ok s)

include captured

/-- Where all rows are answered, evaluations go on in an archive with the same tree as they would
have gone on. -/
theorem Running.exists_resumed (running : r.Running p s)
    (answered : ∀ id, r.store.slots.get? (p, id) = none) {b : Archive} (ready : b.mounted.Ready)
    (handles : b.handles = ∅) (tree : b.tree = r.archive.tree)
    (names : b.mounted.names = r.archive.mounted.names) {store : EvaluationStore}
    (producers : store.producers = ∅) (slots : store.slots = ∅)
    (selected : store.selects p = true) :
    ∃ again, allocate p inputs response active ⟨b, store, []⟩ = .ok () again ∧
      again.store.isDisabled p = false ∧ Abreast (· = p) r.archive b r again := by
  obtain ⟨fits, -⟩ := running.sound.known p _ running.known
  have laid : b.LaidOut := Archive.laidOut_of_tree (Archive.sound_of_ready ready handles)
    (tree ▸ running.sound.laidOut.tree)
  obtain ⟨n, extents⟩ := running.extents
  have same (part : EvaluationPart) :
      b.extents p.root part = (part.shape? s).map (n :: ·) := by
    rw [← extents, Archive.extents, Archive.extents, Archive.at?, Archive.at?, tree]
  have unknown : store.producers.get? p = none := by rw [producers, Table.get?_empty]
  obtain ⟨_, again, ran, rfl⟩ := (ends_allocate_found (r := ⟨b, store, []⟩) laid fits.proper
    selected unknown captured same).exists_ok
  have known : (store.producers.insert p ⟨s, ofSchema p s, false⟩).get? p =
      some ⟨s, ofSchema p s, false⟩ := (Table.get?_insert ..).trans (if_pos rfl)
  refine ⟨_, ran, ?_, ?_, ?_, ?_, ?_, ?_⟩
  · rw [EvaluationStore.isDisabled, known]
  · refine Archive.abreast_self running.sound.laidOut.sound.coherent laid.sound.coherent
      (congrArg Tree.nodes tree) (fun id => ?_) names
    rw [Archive.dataset, Archive.dataset, tree]
  · rintro q rfl
    exact selected.trans running.selected.symm
  · rintro q rfl
    exact known.trans running.known.symm
  · rintro q id rfl
    rw [answered]
    show store.slots.get? (q, id) = none
    rw [slots, Table.get?_empty]
  · rintro q record rfl known
    cases running.known.symm.trans known
    rfl

/-- From an archive that was just started over, a producer is allocated with the extents of its
schema, without rows. -/
theorem Fresh.running (fresh : r.Fresh) (proper : p.IsProper) (selected : r.store.selects p = true)
    (even : inputs.Even) (ran : allocate p inputs response active r = .ok () r') :
    r'.Running p s := by
  have unknown : r.store.producers.get? p = none := by rw [fresh.producers, Table.get?_empty]
  obtain ⟨selected, known, extents⟩ := (ends_allocate_made fresh.laidOut proper selected unknown
    captured even (fresh.absent p.root)).good_of_eq ran
  have quiet := (ends_allocate fresh.sound proper inputs response active).quiet.good_of_eq ran
  exact ⟨fresh.sound.quiet quiet, selected, known, 0, extents⟩

/-- Evaluations may be stored in two sessions: if those of the first session are stored and
answered when the archive is closed, it can be opened again, the producer is enabled when it is
allocated by the same evaluation, the other evaluations are stored as well, and in the end all
datasets and scales hold what they would have held. -/
theorem split_irrelevant {disk : Disk} (sound : disk.Sound) {config : StorageConfig}
    {stamp : Stamp} (mode : config.mode = .truncate) {a : Archive}
    (opened : (Archive.openFile disk config stamp).result = .ok a) {store : EvaluationStore}
    (producers : store.producers = ∅) (slots : store.slots = ∅) (proper : p.IsProper)
    (even : inputs.Even) {done rest : List StoreCall} (conform : ∀ c ∈ done ++ rest, c.Conforms p s)
    {half whole : Recording}
    (first : (.allocate p inputs response active :: done).forM StoreCall.run ⟨a, store, []⟩ =
      .ok () half)
    (answered : ∀ id, half.store.slots.get? (p, id) = none)
    (later : rest.forM StoreCall.run half = .ok () whole)
    {config' : StorageConfig} (path : config'.path = config.path) (append : config'.mode = .append)
    (valid : config'.validate = .ok ()) (stamp' : Stamp) {store' : EvaluationStore}
    (producers' : store'.producers = ∅) (slots' : store'.slots = ∅)
    (selects : store'.selects p = store.selects p) :
    ∃ b again whole',
      (Archive.openFile half.archive.close.mounted.disk config' stamp').result = .ok b ∧
      allocate p inputs response active ⟨b, store', []⟩ = .ok () again ∧
      again.store.isDisabled p = false ∧ rest.forM StoreCall.run again = .ok () whole' ∧
      Tree.SameContents whole.archive.tree whole'.archive.tree := by
  have fresh : Fresh ⟨a, store, []⟩ := ⟨⟨disk, config, stamp, mode, opened⟩, producers, slots⟩
  have conform_done (c : StoreCall) (mem : c ∈ done) := conform c (List.mem_append_left rest mem)
  have conform_rest (c : StoreCall) (mem : c ∈ rest) := conform c (List.mem_append_right done mem)
  obtain ⟨_, r₁, allocated, ran⟩ := exists_of_step_eq_ok first
  have made : Archive.Passes (fun _ => True) a r₁.archive :=
    fresh.sound.way_of_ran (c := .allocate p inputs response active) proper allocated
  -- However the archive came about, it can be opened again.
  have reopens (way : Archive.Passes (fun _ => True) r₁.archive half.archive) :=
    Archive.exists_reopened_closed
      ((made.trans way).throughout (fresh.throughout.mono fun _ _ => trivial) fun _ _ => trivial)
      ((made.trans way).holds (Archive.holds_of_openFile sound mode opened)) path append valid
      stamp'
  by_cases selected : store.selects p = true
  · have running := fresh.running captured proper selected even allocated
    obtain ⟨running, way⟩ := running.ran_all conform_done ran
    obtain ⟨b, opened', handles, ready, tree, names⟩ := reopens way
    obtain ⟨again, allocated', enabled, abreast⟩ := running.exists_resumed captured answered ready
      handles tree names producers' slots' (selects.trans selected)
    obtain ⟨whole', ran', ends⟩ := (abreast.run conform_rest).exists_ok later
    have same : Tree.SameContents half.archive.tree b.tree := tree ▸ .refl _
    exact ⟨b, again, whole', opened', allocated', enabled, ran',
      ends.archive.mounted.trees.sameContents same⟩
  · -- Nothing is stored then, in whichever session.
    have passed {r r' : Recording} {calls : List StoreCall} (none : ¬r.store.selects p = true)
        (conform : ∀ c ∈ calls, c.Conforms p s) (ran : calls.forM StoreCall.run r = .ok () r') :
        r' = r := by
      cases (run_of_unselected (Bool.eq_false_iff.2 none) conform).symm.trans ran
      rfl
    have allocates {r : Recording} (none : ¬r.store.selects p = true) :
        allocate p inputs response active r = .ok () r :=
      allocate_of_not_new (fun both => none (Bool.and_eq_true_iff.1 both).1) ..
    cases (allocates selected).symm.trans allocated
    obtain rfl := passed selected conform_done ran
    obtain rfl := passed selected conform_rest later
    obtain ⟨b, opened', -, -, tree, -⟩ := reopens .refl
    have none : ¬store'.selects p = true := selects ▸ selected
    refine ⟨b, ⟨b, store', []⟩, ⟨b, store', []⟩, opened', allocates none, ?_,
      run_of_unselected (Bool.eq_false_iff.2 none) conform_rest, tree ▸ .refl _⟩
    rw [EvaluationStore.isDisabled, producers', Table.get?_empty]

end

/-- An evaluation of a function is sent out and answered. -/
def evaluated (v : Variables) (id : UInt64) : List StoreCall :=
  [.storeVariables (.model "s" "m") ⟨id, .oneFunction, v⟩,
    .storeResponse (.model "s" "m") id (.blank .oneFunction [])]

/-- Each of two sessions stores an evaluation of a function of one variable. -/
theorem split_irrelevant_of_two : ∃ (v : Variables) (a b : Archive)
      (half whole again whole' : Recording), v.counts = [1, 0, 0, 0] ∧
    (Archive.openFile default {} default).result = .ok a ∧
    List.forM (.allocating (.model "s" "m") v .oneFunction :: evaluated v 7) StoreCall.run
      ⟨a, {}, []⟩ = .ok () half ∧
    List.forM (evaluated v 8) StoreCall.run half = .ok () whole ∧
    (Archive.openFile half.archive.close.mounted.disk { mode := .append } default).result = .ok b ∧
    (StoreCall.allocating (.model "s" "m") v .oneFunction).run ⟨b, {}, []⟩ = .ok () again ∧
    again.store.isDisabled (.model "s" "m") = false ∧
    List.forM (evaluated v 8) StoreCall.run again = .ok () whole' ∧
    Tree.SameContents whole.archive.tree whole'.archive.tree := by
  obtain ⟨v, even, counts, ready⟩ : ∃ v : Variables, v.Even ∧ v.counts = [1, 0, 0, 0] ∧
      (Archive.openFile default {} default).result.toOption.any (fun a =>
        (okState? (List.forM (.allocating (.model "s" "m") v .oneFunction :: evaluated v 7)
          StoreCall.run ⟨a, {}, []⟩)).any fun half => half.store.slots = ∅ &&
        (okState? (List.forM (evaluated v 8) StoreCall.run half)).isSome) :=
    ⟨{ continuous := .ofList [⟨"x", 1, .continuousDesign, .zero⟩] },
      ⟨VariableBlock.even_ofList _, ⟨rfl, rfl, rfl⟩, ⟨rfl, rfl, rfl⟩, ⟨rfl, rfl, rfl⟩⟩, rfl,
      by decide +kernel⟩
  obtain ⟨a, opened, ready⟩ := (Option.any_eq_true ..).1 ready
  obtain ⟨half, first, ready⟩ := (Option.any_eq_true ..).1 ready
  simp only [Bool.and_eq_true, decide_eq_true_eq, Option.isSome_iff_exists] at ready
  obtain ⟨answered, whole, later⟩ := ready
  have opened := eq_ok_of_toOption opened
  obtain ⟨_, first⟩ := exists_ok_of_okState? first
  obtain ⟨_, later⟩ := exists_ok_of_okState? later
  have inputs (id : UInt64) : StoreCall.Conforms (.model "s" "m") ⟨1, [], [], [], 0, v.counts⟩
      (.storeVariables (.model "s" "m") ⟨id, .oneFunction, v⟩) :=
    ⟨rfl, (if_neg fun more => more rfl).trans (if_neg fun more => more rfl)⟩
  have answer (id : UInt64) : StoreCall.Conforms (.model "s" "m") ⟨1, [], [], [], 0, v.counts⟩
      (.storeResponse (.model "s" "m") id (.blank .oneFunction [])) := ⟨rfl, rfl⟩
  obtain ⟨b, again, whole', opened', allocated, enabled, ran, same⟩ :=
    split_irrelevant (s := ⟨1, [], [], [], 0, v.counts⟩) rfl Disk.sound_default rfl opened rfl rfl
      (by decide) even (by simpa [evaluated] using ⟨inputs 7, answer 7, inputs 8, answer 8⟩) first
      (fun id => by rw [answered, Table.get?_empty]) later
      (show ({ mode := .append } : StorageConfig).path = ({} : StorageConfig).path from rfl)
      rfl rfl default (show ({} : EvaluationStore).producers = ∅ from rfl) rfl rfl
  exact ⟨v, a, b, half, whole, again, whole', counts, opened, first, later, opened', allocated,
    enabled, ran, same⟩

end Recording
end StudyArchive
