import StudyArchive.Proofs.Evaluation.Fate
/-
# The order of arrival

Responses come in whatever order the evaluations end.  In every recording that calls lead to, the
order does not matter for responses to different evaluations: each of them comes to the same, and
what is stored, what still waits and which producers are disabled is the same in the end
(`Recording.arrival_order_irrelevant`).

Two responses may be swapped (`Recording.Sound.swap`), since neither changes the fate of the other
one, and since no cell belongs to the rows of both: rows that wait are not shared, also where
producers share their storage.
-/

namespace StudyArchive

open Dataset (Touched)

/-! ## Cells of a row -/

/-- Cells off the row that was touched are as they were. -/
theorem Dataset.Touched.cell_eq {d d' : Dataset} {i : Nat} {index : List Nat}
    (h : Touched d i d') (axis : d.dims ≠ []) (spans : d.Spans index)
    (off : rowOf index ≠ i) : d'.cell index = d.cell index := by
  obtain ⟨n, tail, dims⟩ := List.exists_cons_of_ne_nil axis
  obtain ⟨length, inside⟩ := spans
  rw [dims, List.tail_cons] at inside
  cases index with
  | nil => simp [rank, dims] at length
  | cons k rest => exact cell_eq_of_row dims (h.dims.trans dims) (h.apart k off) inside

namespace Archive

variable {a a' b : Archive} {root : Path} {change : PartChange} {id : DatasetId}

/-- Two archives that differ in data only, with nothing done to them yet. -/
theorem abreast_self (left : a.Coherent) (right : b.Coherent) (nodes : b.tree.nodes = a.tree.nodes)
    (blanks : ∀ id, (a.dataset id).blank = (b.dataset id).blank)
    (names : b.mounted.names = a.mounted.names) : Abreast a b a b where
  mounted :=
    { trees := Tree.abreast_self left.ready.sound right.ready.sound nodes
        (Nat.le_antisymm (right.ready.sound.length_le_of_nodes left.ready.sound nodes.symm)
          (left.ready.sound.length_le_of_nodes right.ready.sound nodes)) blanks
      isOpen := left.ready.isOpen
      kept := rfl
      names }
  left := left.handles
  right := right.handles

/-- Where the parts below a group changed, a dataset is as it was, or it is one of the parts. -/
theorem Reworked.dataset_or (h : Reworked root change a a') (sound : a.Sound) (id : DatasetId) :
    a'.dataset id = a.dataset id ∨ ∃ part : EvaluationPart,
      a.at? (part.path root) = some (a.dataset id) ∧ (a.dataset id).path = part.path root ∧
        change part (a.dataset id) (a'.dataset id) := by
  have length : a'.tree.datasets.length = a.tree.datasets.length :=
    Nat.le_antisymm (h.sound.ready.sound.length_le_of_nodes sound.ready.sound h.nodes.symm)
      (sound.ready.sound.length_le_of_nodes h.sound.ready.sound h.nodes)
  by_cases known : id < a.tree.datasets.length
  · have node := sound.ready.sound.placed (Tree.getElem?_of_lt known)
    have here : a.at? (a.dataset id).path = some (a.dataset id) :=
      (Tree.at?_of_node node).trans (Tree.getElem?_of_lt known)
    have there : a'.at? (a.dataset id).path = some (a'.dataset id) :=
      (Tree.at?_of_node (h.nodes ▸ node)).trans (Tree.getElem?_of_lt (length ▸ known))
    by_cases own : ∃ part : EvaluationPart, (a.dataset id).path = part.path root
    · obtain ⟨part, own⟩ := own
      rw [own] at here there
      obtain ⟨d', found, changed⟩ := h.parts part _ here
      cases there.symm.trans found
      exact .inr ⟨part, here, own, changed⟩
    · have kept := h.rest _ fun part same => own ⟨part, same⟩
      rw [here, there] at kept
      exact .inl (Option.some.inj kept)
  · have beyond := List.getElem?_eq_none (Nat.le_of_not_lt known)
    have beyond' := List.getElem?_eq_none (length ▸ Nat.le_of_not_lt known)
    refine .inl ?_
    show a'.tree.dataset id = a.tree.dataset id
    rw [Tree.dataset, Tree.dataset, beyond, beyond']

end Archive

namespace Recording

variable {r t : Recording} {x y : Arrival} {id : DatasetId} {index : List Nat}

/-! ## One arrival

An arrival touches the row that waits for it, in the parts that responses go into, so two rows
that wait are touched by one arrival each. -/

/-- A response leaves the archive as it is, or touches the row that waits for it. -/
theorem Sound.touched_or (sound : r.Sound) (x : Arrival) :
    (x.after r).archive = r.archive ∨ ∃ i, r.store.slots.get? x.key = some i ∧
      Archive.Reworked x.producer.root (fun _ d d' => Touched d i d') r.archive
        (x.after r).archive := by
  refine Ends.state (P := fun r' => r'.archive = r.archive ∨
    ∃ i, r.store.slots.get? x.key = some i ∧ Archive.Reworked x.producer.root
      (fun _ d d' => Touched d i d') r.archive r'.archive)
    ((ends_storeResponse sound x.id x.response).mono (fun _ r' ended => ?_) fun _ r' cut => ?_)
  · cases ended with
    | passed _ same => exact .inl (congrArg archive same)
    | dropped _ _ _ _ same => exact .inl same
    | stored waits _ _ answered _ _ =>
      exact .inr ⟨_, waits, answered.mono fun _ _ _ => EvaluationPart.AnsweredIf.touched⟩
  · rcases cut with same | ⟨-, cut⟩
    · exact .inl (congrArg archive same)
    · exact .inr cut.touched

/-- Whoever sends a response, a recording stays sound. -/
theorem Sound.arrived (sound : r.Sound) (x : Arrival) : (x.after r).Sound := by
  refine Ends.state ((ends_storeResponse sound x.id x.response).mono
    (fun _ r' => sound.responseEnd) ?_)
  rintro e r' (rfl | ⟨-, cut⟩)
  · exact sound
  · exact sound.responseCut cut

/-- A cell of the row that waits for a response. -/
def Claims (r : Recording) (x : Arrival) (id : DatasetId) (index : List Nat) : Prop :=
  r.store.slots.get? x.key = some (Dataset.rowOf index) ∧
    ∃ part : EvaluationPart, (r.archive.dataset id).path = part.path x.producer.root

/-- A response leaves the cells of other rows as they are. -/
theorem Sound.cell_eq (sound : r.Sound) (spans : (r.archive.dataset id).Spans index)
    (off : ¬r.Claims x id index) :
    ((x.after r).archive.dataset id).cell index = (r.archive.dataset id).cell index := by
  rcases sound.touched_or x with same | ⟨i, waits, touched⟩
  · rw [same]
  · rcases touched.dataset_or sound.laidOut.sound id with same | ⟨part, found, path, changed⟩
    · rw [same]
    · obtain ⟨record, known, -⟩ := sound.waits x.producer x.id i waits
      have hr := Producer.segments_root (sound.known _ _ known).1.proper
      have axis := (sound.laidOut.sound.sound_of_at? found).axis_of_extensible
        (sound.laidOut.fits hr found).extensible
      refine changed.cell_eq axis spans fun row => off ⟨row ▸ waits, part, path⟩

/-- No cell is of the rows of two evaluations. -/
theorem Sound.key_eq (sound : r.Sound) (left : r.Claims x id index)
    (right : r.Claims y id index) : x.key = y.key := by
  obtain ⟨waits, part, path⟩ := left
  obtain ⟨waits', part', path'⟩ := right
  obtain ⟨record, known, -⟩ := sound.waits x.producer x.id _ waits
  obtain ⟨record', known', -⟩ := sound.waits y.producer y.id _ waits'
  have root := (EvaluationPart.path_injective
    (Producer.segments_root (sound.known _ _ known).1.proper)
    (Producer.segments_root (sound.known _ _ known').1.proper) (path.symm.trans path')).2
  obtain ⟨producer, id⟩ := sound.unshared _ _ _ _ _ waits waits' root
  exact Prod.ext producer id

/-- A response changes no more of the archive than data. -/
theorem Sound.level (sound : r.Sound) (x : Arrival) :
    Archive.Abreast (x.after r).archive r.archive (x.after r).archive r.archive := by
  have coherent := sound.laidOut.sound.coherent
  have twice := (r.store.fate x).together x
    (Archive.abreast_self coherent coherent rfl (fun _ => rfl) rfl)
  have went := twice.state
  rw [← (sound.settled x).archive] at went
  change Archive.Abreast r.archive r.archive (x.after r).archive (x.after r).archive at went
  refine Archive.abreast_self went.coherent.1 coherent went.mounted.trees.kept.symm (fun id => ?_)
    went.mounted.kept.symm
  have dims : ((x.after r).archive.dataset id).dims = (r.archive.dataset id).dims := by
    rcases sound.touched_or x with same | ⟨i, -, touched⟩
    · rw [same]
    · rcases touched.dataset_or sound.laidOut.sound id with same | ⟨-, -, -, changed⟩
      · rw [same]
      · exact changed.dims
  have shape : ((x.after r).archive.dataset id).blank = _ := (went.mounted.trees.each id).shape
  rw [shape]
  exact dims ▸ rfl

/-! ## Recordings that no response tells apart -/

/-- Two recordings with the same contents, over files of one name, whose stores know the same. -/
structure Twin (r t : Recording) : Prop where
  contents : Tree.SameContents r.archive.tree t.archive.tree
  names : t.archive.mounted.names = r.archive.mounted.names
  selects : ∀ p, t.store.selects p = r.store.selects p
  producers : ∀ p, t.store.producers.get? p = r.store.producers.get? p
  slots : ∀ key, t.store.slots.get? key = r.store.slots.get? key

namespace Twin

theorem refl (r : Recording) : Twin r r :=
  ⟨.refl _, rfl, fun _ => rfl, fun _ => rfl, fun _ => rfl⟩

theorem trans {u : Recording} (h : Twin r t) (h' : Twin t u) : Twin r u where
  contents := h.contents.trans h'.contents
  names := h'.names.trans h.names
  selects p := (h'.selects p).trans (h.selects p)
  producers p := (h'.producers p).trans (h.producers p)
  slots key := (h'.slots key).trans (h.slots key)

theorem arrive (h : Twin r t) (sound : r.Sound) (sound' : t.Sound) (x : Arrival) :
    x.verdict r = x.verdict t ∧ Twin (x.after r) (x.after t) := by
  have archive := Archive.abreast_self sound.laidOut.sound.coherent
    sound'.laidOut.sound.coherent h.contents.nodes h.contents.blanks h.names
  have abreast : Abreast (fun _ => True) r.archive t.archive r t :=
    ⟨archive, fun p _ => h.selects p, fun p _ => h.producers p, fun p id _ => h.slots (p, id),
      fun p record _ known => (sound.known p record known).1.layout⟩
  have both := abreast.storeResponse (p := x.producer) trivial x.id x.response
  have after : Abreast _ _ _ (x.after r) (x.after t) := both.state
  exact ⟨both.outcome_eq, after.archive.mounted.trees.sameContents h.contents,
    after.archive.mounted.names, fun p => after.selects p trivial,
    fun p => after.producers p trivial, fun key => after.slots key.1 key.2 trivial⟩

end Twin

/-! ## Two arrivals

What the second arrival meets is what it would have met without the first. -/

section
variable (sound : r.Sound) (distinct : x.key ≠ y.key)

include sound

theorem Sound.slots_after (x : Arrival) (key : Producer × UInt64) :
    (x.after r).store.slots.get? key =
      if (r.store.fate x).frees ∧ x.key = key then none else r.store.slots.get? key :=
  (sound.settled x).slots key

theorem Sound.producers_after (x : Arrival) (p : Producer) :
    (x.after r).store.producers.get? p =
      if (r.store.fate x).disables ∧ x.producer = p then
        (r.store.producers.get? p).map .retired
      else r.store.producers.get? p :=
  (sound.settled x).producers p

include distinct

/-- A response to another evaluation does not touch the slot of this one. -/
theorem Sound.waits_after : (x.after r).store.slots.get? y.key = r.store.slots.get? y.key := by
  rw [sound.slots_after, if_neg fun both => distinct both.2]

/-- Nor does it change its fate. -/
theorem Sound.fate_after : (x.after r).store.fate y = r.store.fate y :=
  EvaluationStore.fate_eq ((sound.settled x).selects _) (sound.waits_after distinct)
    (sound.producers_after x _)

theorem Sound.settled_after :
    Settled y (r.store.fate y) (x.after r) (y.call.run (x.after r)) := by
  have settled := (sound.arrived x).settled y
  rwa [sound.fate_after distinct] at settled

theorem Sound.verdict_after : y.verdict (x.after r) = y.verdict r := by
  have same := ((r.store.fate y).together y (sound.level x)).outcome_eq
  have after := (sound.settled_after distinct).verdict
  rw [same] at after
  exact after.trans (sound.settled y).verdict.symm

/-- The archive takes this response as it would have taken it without the other one. -/
theorem Sound.archives_after :
    Archive.Abreast (x.after r).archive r.archive (y.after (x.after r)).archive
      (y.after r).archive := by
  have both := ((r.store.fate y).together y (sound.level x)).state
  rwa [← (sound.settled_after distinct).archive, ← (sound.settled y).archive] at both

/-- Off the row of the first of two responses, a cell holds in the end what the second one leaves
there. -/
theorem Sound.cell_swap (off : ¬r.Claims x id index)
    (spans : (r.archive.dataset id).Spans index) :
    ((y.after (x.after r)).archive.dataset id).cell index =
      ((x.after (y.after r)).archive.dataset id).cell index := by
  have later : ((x.after (y.after r)).archive.dataset id).cell index =
      ((y.after r).archive.dataset id).cell index := by
    have blank := (sound.level y).blank id
    refine (sound.arrived y).cell_eq ((Dataset.spans_iff_of_blank blank).2 spans) fun claim => ?_
    obtain ⟨waits, part, path⟩ := claim
    rw [sound.waits_after distinct.symm] at waits
    exact off ⟨waits, part, (Dataset.path_eq_of_blank blank).symm.trans path⟩
  have each := (sound.archives_after distinct).mounted.trees.each id
  have here := (Dataset.spans_iff_of_blank ((sound.level x).blank id)).2 spans
  rcases each.cells index ((each.spans index).2 here) with ⟨left, right⟩ | both
  · exact left.trans ((sound.cell_eq spans off).trans (right.symm.trans later.symm))
  · exact both.trans later.symm

/-- Two responses to different evaluations may be swapped. -/
theorem Sound.swap : Twin (y.after (x.after r)) (x.after (y.after r)) := by
  -- All four archives differ in data only.
  have levels := sound.level x
  have levels' := sound.level y
  have abreast := sound.archives_after distinct
  have abreast' := sound.archives_after distinct.symm
  have blanks (id : DatasetId) : ((y.after (x.after r)).archive.dataset id).blank =
      (r.archive.dataset id).blank := (abreast.blank id).trans (levels'.blank id)
  refine ⟨⟨?_, ?_, fun id => ?_, fun id index spans => ?_⟩, ?_, fun p => ?_, fun p => ?_,
    fun key => ?_⟩
  · exact abreast'.mounted.trees.nodes.symm.trans (levels.mounted.trees.nodes.symm.trans
      (levels'.mounted.trees.nodes.trans abreast.mounted.trees.nodes))
  · exact abreast'.mounted.trees.length.symm.trans (levels.mounted.trees.length.symm.trans
      (levels'.mounted.trees.length.trans abreast.mounted.trees.length))
  · exact (blanks id).trans ((abreast'.blank id).trans (levels.blank id)).symm
  · have here := (Dataset.spans_iff_of_blank (blanks id)).1 spans
    by_cases claim : r.Claims x id index
    · exact (sound.cell_swap distinct.symm
        (fun other => distinct (sound.key_eq claim other)) here).symm
    · exact sound.cell_swap distinct claim here
  · exact abreast'.mounted.names.symm.trans (levels.mounted.names.symm.trans
      (levels'.mounted.names.trans abreast.mounted.names))
  · have first : (y.after (x.after r)).store.selects p = r.store.selects p :=
      ((sound.settled_after distinct).selects p).trans ((sound.settled x).selects p)
    exact (((sound.settled_after distinct.symm).selects p).trans
      ((sound.settled y).selects p)).trans first.symm
  · rw [(sound.arrived y).producers_after, (sound.arrived x).producers_after,
      sound.fate_after distinct, sound.fate_after distinct.symm, sound.producers_after,
      sound.producers_after]
    split_ifs <;> rfl
  · rw [(sound.arrived y).slots_after, (sound.arrived x).slots_after,
      sound.fate_after distinct, sound.fate_after distinct.symm, sound.slots_after,
      sound.slots_after]
    split_ifs <;> rfl

end

/-! ## Any order -/

/-- What each of several responses comes to that arrive one after the other. -/
def verdicts (r : Recording) : List Arrival → List (Arrival × Except StudyError Unit)
  | [] => []
  | x :: xs => (x, x.verdict r) :: verdicts (x.after r) xs

/-- The recording after several responses. -/
def arrivals (r : Recording) (xs : List Arrival) : Recording := xs.foldl Arrival.after r

/-- Responses come to the same in recordings that they do not tell apart. -/
theorem Twin.arrivals (h : Twin r t) (sound : r.Sound) (sound' : t.Sound) (xs : List Arrival) :
    r.verdicts xs = t.verdicts xs ∧ Twin (r.arrivals xs) (t.arrivals xs) := by
  induction xs generalizing r t with
  | nil => exact ⟨rfl, h⟩
  | cons x xs ih =>
    obtain ⟨verdict, after⟩ := h.arrive sound sound' x
    obtain ⟨verdicts, ends⟩ := ih after (sound.arrived x) (sound'.arrived x)
    exact ⟨by rw [Recording.verdicts, Recording.verdicts, verdict, verdicts], ends⟩

/-- In whatever order responses to different evaluations arrive, each comes to the same, and so does
the recording. -/
theorem Sound.perm {xs ys : List Arrival} (perm : xs.Perm ys) (sound : r.Sound)
    (distinct : (xs.map Arrival.key).Nodup) :
    (r.verdicts xs).Perm (r.verdicts ys) ∧ Twin (r.arrivals xs) (r.arrivals ys) := by
  induction perm generalizing r with
  | nil => exact ⟨.refl _, .refl _⟩
  | cons x _ ih =>
    obtain ⟨verdicts, ends⟩ := ih (sound.arrived x) (List.nodup_cons.1 distinct).2
    exact ⟨verdicts.cons _, ends⟩
  | swap x y xs =>
    have apart : y.key ≠ x.key := fun same =>
      (List.nodup_cons.1 distinct).1 (same ▸ List.mem_cons_self)
    obtain ⟨verdicts, ends⟩ := (sound.swap apart).arrivals
      ((sound.arrived y).arrived x) ((sound.arrived x).arrived y) xs
    refine ⟨?_, ends⟩
    rw [Recording.verdicts, Recording.verdicts, Recording.verdicts, Recording.verdicts, verdicts,
      sound.verdict_after apart, sound.verdict_after apart.symm]
    exact .swap ..
  | trans first _ ih ih' =>
    obtain ⟨verdicts, ends⟩ := ih sound distinct
    obtain ⟨verdicts', ends'⟩ := ih' sound ((first.map Arrival.key).nodup_iff.1 distinct)
    exact ⟨verdicts.trans verdicts', ends.trans ends'⟩

/-- In every recording that calls lead to, the order in which responses to different evaluations
arrive is irrelevant: each of them comes to the same, and in the end every dataset has the same
cells, the same rows wait, and the same producers are disabled. -/
theorem arrival_order_irrelevant {start : Recording} (fresh : start.Fresh)
    {calls : List StoreCall} (proper : ∀ c ∈ calls, c.IsProper) {xs ys : List Arrival}
    (distinct : (xs.map Arrival.key).Nodup) (perm : xs.Perm ys) :
    ((StoreCall.afterAll start calls).verdicts xs).Perm
        ((StoreCall.afterAll start calls).verdicts ys) ∧
      Tree.SameContents ((StoreCall.afterAll start calls).arrivals xs).archive.tree
        ((StoreCall.afterAll start calls).arrivals ys).archive.tree ∧
      (∀ p id, ((StoreCall.afterAll start calls).arrivals ys).store.slots.get? (p, id) =
        ((StoreCall.afterAll start calls).arrivals xs).store.slots.get? (p, id)) ∧
      ∀ p, ((StoreCall.afterAll start calls).arrivals ys).store.isDisabled p =
        ((StoreCall.afterAll start calls).arrivals xs).store.isDisabled p := by
  obtain ⟨verdicts, ends⟩ := (fresh.sound_afterAll proper).perm perm distinct
  refine ⟨verdicts, ends.contents, fun p id => ends.slots (p, id), fun p => ?_⟩
  rw [EvaluationStore.isDisabled, EvaluationStore.isDisabled, ends.producers]

/-- The response to one of two evaluations has a function too many. -/
def oneExcessive : List Arrival :=
  [⟨.model "s" "m", 8, .blank ⟨[1, 1], []⟩ []⟩, ⟨.model "s" "m", 7, .blank .oneFunction []⟩]

/-- One of two responses goes into its row, the other one has a function too many. -/
theorem arrival_order_irrelevant_of_drift : ∃ start r, start.Fresh ∧
    r = StoreCall.afterAll start (StoreCall.sending (.model "s" "m") {} .oneFunction [7, 8]) ∧
    r.store.slots.get? (.model "s" "m", 7) = some 0 ∧
    r.store.slots.get? (.model "s" "m", 8) = some 1 ∧
    (r.arrivals oneExcessive).store.isDisabled (.model "s" "m") = true ∧
    Tree.SameContents (r.arrivals oneExcessive.reverse).archive.tree
      (r.arrivals oneExcessive).archive.tree := by
  have ready : (started {}).any (fun start =>
      (fun r => r.store.slots.get? (.model "s" "m", 7) = some 0 &&
        r.store.slots.get? (.model "s" "m", 8) = some 1 &&
        (r.arrivals oneExcessive.reverse).store.isDisabled (.model "s" "m"))
      (StoreCall.afterAll start (StoreCall.sending (.model "s" "m") {} .oneFunction [7, 8]))) := by
    decide +kernel
  obtain ⟨start, opened, ready⟩ := (Option.any_eq_true ..).1 ready
  simp only [Bool.and_eq_true, decide_eq_true_eq] at ready
  obtain ⟨⟨first, second⟩, disabled⟩ := ready
  have fresh := fresh_of_started rfl rfl opened
  have proper : ∀ c ∈ StoreCall.sending (.model "s" "m") {} .oneFunction [7, 8], c.IsProper := by
    decide
  have distinct : (oneExcessive.reverse.map Arrival.key).Nodup := by decide
  obtain ⟨-, same, -, flags⟩ := arrival_order_irrelevant fresh proper distinct (List.reverse_perm _)
  exact ⟨start, _, fresh, rfl, first, second, (flags _).trans disabled, same⟩

end Recording
end StudyArchive
