import StudyArchive.Proofs.Evaluation.Footprint
/-
# Producers side by side

A producer owns what lies at or below its group and the mirror of it, and its places lie there.
Groups of producers are apart, except that the two kinds of one interface share one; so the calls
about a producer leave the datasets of the others alone, as long as no soft link leads from one of
its places to them (`Recording.leaves_others_alone`).  The store itself puts no links in such
places; but others may (`Recording.touches_others`).
-/

namespace StudyArchive

open EvaluationLayout

namespace Producer

variable {p q : Producer} {path : Path}

/-- Whether a path is at or below the group of a producer, or the mirror of it. -/
def Owns (p : Producer) (path : Path) : Prop :=
  p.root.segments <+: path.segments ∨ p.root.scaleMirror.segments <+: path.segments

/-- An interface of the same model with the same identifier, but of the other kind. -/
def IsOtherKind : Producer → Producer → Prop
  | interface id owner kind, interface id' owner' kind' =>
    id = id' ∧ owner = owner' ∧ kind ≠ kind'
  | _, _ => False

/-- The segments of a group, which do not tell the kind of an interface. -/
def address : Producer → List String
  | model type id => ["models", type, id]
  | interface id owner _ => ["interfaces", id, owner]

theorem segments_root_eq (proper : p.IsProper) : p.root.segments = p.address := by
  cases p with
  | model type id => exact Path.segments_ofTexts_three (by decide) proper.1 proper.2
  | interface id owner kind => exact Path.segments_ofTexts_three (by decide) proper.1 proper.2

/-- Only the two kinds of an interface share a group. -/
theorem address_ne (ne : p ≠ q) (other : ¬p.IsOtherKind q) : p.address ≠ q.address := by
  intro same
  cases p with
  | model type id =>
    cases q with
    | model type' id' =>
      simp only [address, List.cons.injEq, and_true, true_and] at same
      exact ne (by rw [same.1, same.2])
    | interface id' owner' kind' => simp [address] at same
  | interface id owner kind =>
    cases q with
    | model type' id' => simp [address] at same
    | interface id' owner' kind' =>
      simp only [address, List.cons.injEq, and_true, true_and] at same
      obtain ⟨rfl, rfl⟩ := same
      exact other ⟨rfl, rfl, fun kinds => ne (by rw [kinds])⟩

/-- The places of a producer are its own. -/
theorem IsPlace.owns (h : p.IsPlace path) : p.Owns path := by
  rcases h with ⟨part, rfl⟩ | ⟨k, rfl⟩
  · unfold Owns
    rw [EvaluationPart.segments_path, Path.segments_scaleMirror]
    cases part with
    | ids => exact .inr (List.prefix_append ..)
    | _ => exact .inl (List.prefix_append ..)
  · refine .inl ?_
    rw [Path.segments_join, Path.segments_join, Path.segments_join, List.append_assoc,
      List.append_assoc]
    exact List.prefix_append ..

/-- What two producers own is in one group. -/
theorem address_eq_of_owns (proper : p.IsProper) (proper' : q.IsProper) (h : p.Owns path)
    (h' : q.Owns path) : p.address = q.address := by
  unfold Owns at h h'
  rw [Path.segments_scaleMirror, segments_root_eq proper] at h
  rw [Path.segments_scaleMirror, segments_root_eq proper'] at h'
  have three (p : Producer) : ∃ group a b, p.address = [group, a, b] ∧ group ≠ "_scales" := by
    cases p with
    | model type id => exact ⟨_, _, _, rfl, by decide⟩
    | interface id owner kind => exact ⟨_, _, _, rfl, by decide⟩
  obtain ⟨group, a, b, eq, direct⟩ := three p
  obtain ⟨group', a', b', eq', direct'⟩ := three q
  rw [eq] at h
  rw [eq'] at h'
  rw [eq, eq']
  rcases h with ⟨rest, h⟩ | ⟨rest, h⟩
  · rcases h' with ⟨rest', h'⟩ | ⟨rest', h'⟩
    · have same := h.trans h'.symm
      simp only [List.cons_append, List.cons.injEq] at same
      rw [same.1, same.2.1, same.2.2.1]
    · have same := h.trans h'.symm
      simp only [List.cons_append, List.cons.injEq, Path.scalesName] at same
      exact absurd same.1 direct
  · rcases h' with ⟨rest', h'⟩ | ⟨rest', h'⟩
    · have same := h.trans h'.symm
      simp only [List.cons_append, List.cons.injEq, Path.scalesName] at same
      exact absurd same.1.symm direct'
    · have same := h.trans h'.symm
      simp only [List.cons_append, List.cons.injEq] at same
      rw [same.2.1, same.2.2.1, same.2.2.2.1]

end Producer

namespace Recording

variable {start r : Recording} {p q : Producer}

/-- A dataset that a place of a producer denotes is its own, or a soft link at the place leads
there. -/
theorem owns_or_linked (coherent : r.archive.Coherent) {path : Path} {id : DatasetId}
    (place : p.IsPlace path) (denotes : r.archive.tree.denoted? path = some id) :
    p.Owns (r.archive.dataset id).path ∨
      ∃ target, r.archive.tree.nodes.get? path = some (.link target) := by
  cases node : r.archive.tree.nodes.get? path with
  | none =>
    have nothing : r.archive.tree.denoted? path = none := by
      unfold Tree.denoted? Tree.resolve? Tree.maxLinkDepth
      rw [Tree.follow, node]
    cases nothing.symm.trans denotes
  | some node' =>
    cases node' with
    | link target => exact .inr ⟨target, rfl⟩
    | group attributes =>
      have nothing : r.archive.tree.denoted? path = none := by
        unfold Tree.denoted?
        rw [Tree.resolve?_of_get? node (by simp)]
      cases nothing.symm.trans denotes
    | dataset id' =>
      cases (Tree.denoted?_of_node node).symm.trans denotes
      obtain ⟨d, found, here⟩ := coherent.ready.sound.named node
      have same : r.archive.dataset id = d := Tree.dataset_of_getElem? found
      rw [same, here]
      exact .inl place.owns

/-- A store that alone writes to a new archive puts no links where its producers' datasets are. -/
theorem Sound.unlinked (sound : r.Sound) (proper : p.IsProper) {path target : Path}
    (place : p.IsPlace path) : r.archive.tree.nodes.get? path ≠ some (.link target) := by
  intro node
  have link := sound.laidOut.links path target node
  have hr := Producer.segments_root proper
  rcases place with ⟨part, rfl⟩ | ⟨k, rfl⟩
  · obtain ⟨owner, proper', name, same⟩ := link
    exact (apart_sources proper' name).ne hr part same
  · exact not_isLinkPlace_parameters hr k.name link

/-- A run of a store that alone writes to a new archive. -/
structure Alone (start : Recording) (turns : List Turn) : Prop where
  fresh : start.Fresh
  own : ∃ calls : List StoreCall, turns = calls.map .call ∧ ∀ c ∈ calls, c.IsProper

theorem Alone.sound {turns : List Turn} (alone : Alone start turns) :
    (Turn.afterAll start turns).Sound := by
  obtain ⟨calls, rfl, proper⟩ := alone.own
  have same : Turn.afterAll start (calls.map .call) = StoreCall.afterAll start calls :=
    List.foldl_map
  rw [same]
  exact alone.fresh.sound_afterAll proper

/-- Whoever shares the archive: a call about a producer changes no extents and no cell of what
another one owns, unless the other is the other kind of the same interface, or a soft link at one
of the producer's places leads there.  In an archive that the store alone writes to there is no
such link. -/
theorem leaves_others_alone (inUse : start.archive.InUse) (new : start.store.producers = ∅)
    {turns : List Turn} (shared : ∀ a, .elsewhere a ∈ turns → a.InUse) {c : StoreCall}
    (about : c.producer? = some p) (proper : p.IsProper) (proper' : q.IsProper) (ne : p ≠ q)
    (other : ¬p.IsOtherKind q) {id : DatasetId}
    (known : id < (Turn.afterAll start turns).archive.tree.datasets.length)
    (owns : q.Owns ((Turn.afterAll start turns).archive.dataset id).path)
    (unlinked : Alone start turns ∨ ∀ path target, p.IsPlace path →
      (Turn.afterAll start turns).archive.tree.nodes.get? path = some (.link target) →
        (Turn.afterAll start turns).archive.tree.denoted? path ≠ some id) :
    Dataset.SameCells ((Turn.afterAll start turns).archive.dataset id)
      ((c.after (Turn.afterAll start turns)).archive.dataset id) := by
  obtain ⟨coherent, knows⟩ := coherent_afterAll inUse.coherent (knows_of_new new)
    fun a mem => (shared a mem).coherent
  refine (spared_after coherent knows about).same id known fun path place denotes => ?_
  -- The dataset is the producer's own, or it was reached by a link; neither can be.
  rcases owns_or_linked coherent place denotes with own | ⟨target, node⟩
  · exact Producer.address_ne ne other (Producer.address_eq_of_owns proper proper' own owns)
  · rcases unlinked with alone | unlinked
    · exact alone.sound.unlinked proper place node
    · exact unlinked path target place node denotes

/-- Two models are allocated, and an evaluation of the second one is sent out. -/
def twoModels : List Turn :=
  (.allocating (.model "s" "m") {} .oneFunction ::
    StoreCall.sending (.model "s" "n") {} .oneFunction [7]).map .call

/-- Two models, with an evaluation of the second one under way: an evaluation of the first one
leaves the identifiers of the second one's as they are. -/
theorem leaves_others_alone_of_two_models : ∃ start r id, start.Fresh ∧
    r = Turn.afterAll start twoModels ∧
    r.archive.tree.denoted? (EvaluationPart.ids.path (Producer.model "s" "n").root) = some id ∧
    (r.archive.dataset id).dims = [1] ∧
    Dataset.SameCells (r.archive.dataset id)
      (((StoreCall.storeVariables (.model "s" "m") ⟨7, .oneFunction, {}⟩).after r).archive.dataset
        id) := by
  have ready : (started {}).any (fun start => (fun r =>
      (r.archive.tree.denoted? (EvaluationPart.ids.path (Producer.model "s" "n").root)).any
        fun id => decide (id < r.archive.tree.datasets.length) &&
          decide ((Producer.model "s" "n").root.scaleMirror.segments <+:
            (r.archive.dataset id).path.segments) &&
          decide ((r.archive.dataset id).dims = [1]))
      (Turn.afterAll start twoModels)) := by decide +kernel
  obtain ⟨start, opened, ready⟩ := (Option.any_eq_true ..).1 ready
  obtain ⟨id, denotes, ready⟩ := (Option.any_eq_true ..).1 ready
  simp only [Bool.and_eq_true, decide_eq_true_eq] at ready
  obtain ⟨⟨known, mirrored⟩, one⟩ := ready
  have fresh := fresh_of_started rfl rfl opened
  obtain ⟨disk, config, stamp, -, first⟩ := fresh.opened
  have alone : Alone start twoModels := ⟨fresh, _, rfl, by decide⟩
  exact ⟨start, _, id, fresh, rfl, denotes, one,
    leaves_others_alone (.opened first) fresh.producers (by simp [twoModels]) rfl (by decide)
      (by decide) (by decide) (by simp [Producer.IsOtherKind]) known (.inr mirrored) (.inl alone)⟩

/-- Two producers are allocated, one after the other. -/
def bothAllocated (p q : Producer) : List Turn :=
  [p, q].map fun p => .call (.allocating p {} .oneFunction)

/-- Links from the places of a model of one function to those of another model. -/
def linked (root target : Path) : Archive.Action Unit := do
  for part in [EvaluationPart.ids, .functions, .requests] do
    Archive.createLink (part.path root) (part.path target)

/-- Whether a first evaluation of one producer gives the other one's identifiers a row. -/
def growsOther (r : Recording) (p q : Producer) : Bool :=
  (r.archive.tree.denoted? (EvaluationPart.ids.path q.root)).any fun id =>
    decide (q.root.scaleMirror.segments <+: (r.archive.dataset id).path.segments) &&
    decide ((r.archive.dataset id).dims = [0]) &&
    decide ((((StoreCall.storeVariables p ⟨7, .oneFunction, {}⟩).after r).archive.dataset id).dims =
      [1])

theorem exists_of_growsOther (h : r.growsOther p q = true) : ∃ id,
    q.Owns (r.archive.dataset id).path ∧ (r.archive.dataset id).dims = [0] ∧
      (((StoreCall.storeVariables p ⟨7, .oneFunction, {}⟩).after r).archive.dataset id).dims =
        [1] := by
  obtain ⟨id, -, h⟩ := (Option.any_eq_true ..).1 h
  simp only [Bool.and_eq_true, decide_eq_true_eq] at h
  exact ⟨id, .inr h.1.1, h.1.2, h.2⟩

/-- Two distinct producers, and still the inputs of one give the other's identifiers a row: the
kinds of an interface share their datasets, and so do models of which one was linked to the other
before. -/
theorem touches_others :
    (∃ start r id, start.Fresh ∧
      r = Turn.afterAll start
        (bothAllocated (.interface "i" "m" .simulation) (.interface "i" "m" .approximation)) ∧
      (Producer.interface "i" "m" .simulation).Owns (r.archive.dataset id).path ∧
      (r.archive.dataset id).dims = [0] ∧
      (((StoreCall.storeVariables (.interface "i" "m" .approximation) ⟨7, .oneFunction, {}⟩).after
        r).archive.dataset id).dims = [1]) ∧
    ∃ start a r id, start.Fresh ∧
      linked (Producer.model "s" "m").root (Producer.model "s" "n").root start.archive = .ok () a ∧
      r = Turn.afterAll start
        (.elsewhere a :: bothAllocated (.model "s" "n") (.model "s" "m")) ∧
      (Producer.model "s" "n").Owns (r.archive.dataset id).path ∧
      (r.archive.dataset id).dims = [0] ∧
      (((StoreCall.storeVariables (.model "s" "m") ⟨7, .oneFunction, {}⟩).after
        r).archive.dataset id).dims = [1] := by
  have kinds : (started {}).any (fun start => growsOther (Turn.afterAll start
      (bothAllocated (.interface "i" "m" .simulation) (.interface "i" "m" .approximation)))
      (.interface "i" "m" .approximation) (.interface "i" "m" .simulation)) := by
    decide +kernel
  have links : (started {}).any (fun start =>
      (okState? (linked (Producer.model "s" "m").root (Producer.model "s" "n").root
        start.archive)).any fun a => growsOther (Turn.afterAll start
          (.elsewhere a :: bothAllocated (.model "s" "n") (.model "s" "m")))
        (.model "s" "m") (.model "s" "n")) := by
    decide +kernel
  constructor
  · obtain ⟨start, opened, ready⟩ := (Option.any_eq_true ..).1 kinds
    obtain ⟨id, grown⟩ := exists_of_growsOther ready
    exact ⟨start, _, id, fresh_of_started rfl rfl opened, rfl, grown⟩
  · obtain ⟨start, opened, ready⟩ := (Option.any_eq_true ..).1 links
    obtain ⟨a, made, ready⟩ := (Option.any_eq_true ..).1 ready
    obtain ⟨_, made⟩ := exists_ok_of_okState? made
    obtain ⟨id, grown⟩ := exists_of_growsOther ready
    exact ⟨start, a, _, id, fresh_of_started rfl rfl opened, made, rfl, grown⟩

end Recording
end StudyArchive
