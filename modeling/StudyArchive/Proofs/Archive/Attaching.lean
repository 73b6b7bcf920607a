import StudyArchive.Proofs.Archive.Calls
import StudyArchive.Proofs.Archive.Footprint
import StudyArchive.Proofs.Archive.Labels
/-
# Attaching scales

Attaching a scale changes at most two datasets: a scale without a name takes the label as its name,
and the axis gets the scale if it does not have it.  Done again at once it changes nothing, and if
it is refused nothing has changed, but for one thing (`Archive.attachScale_all_or_nothing`): the
axis is looked at only after the scale was named, so that a refused axis leaves the name behind
(`Archive.attachScale_leaves_name`).

The scales of an axis stay in the order in which they came, each with its first label, and a label
is looked up from the front (`Archive.finds_first_label`).  So the scale that was just attached is
not found if the label stood for another scale already, or the scale had another label
(`Archive.misses_attached_scale`).
-/

namespace StudyArchive

open Dataset

/-- The scales of an axis and one more; a scale that is there already stays as it is. -/
def AttachedScale.addTo (s : AttachedScale) (l : List AttachedScale) : List AttachedScale :=
  if l.any (·.scale = s.scale) then l else l ++ [s]

theorem AttachedScale.any_addTo (s : AttachedScale) (l : List AttachedScale) :
    (s.addTo l).any (·.scale = s.scale) = true := by
  unfold addTo
  split
  · next there => exact there
  · simp

namespace Dataset

variable {d d' : Dataset} {axis : Nat} {s : AttachedScale}

theorem scalesAt_eq_addTo (h : d.attachScale axis s = .ok d') :
    d'.scalesAt axis = s.addTo (d.scalesAt axis) := by
  obtain ⟨o, mem, same⟩ := bears_of_attachScale h
  unfold AttachedScale.addTo
  rcases scalesAt_attached h axis with eq | ⟨eq, absent⟩
  · rw [eq] at mem
    rw [eq, if_pos (List.any_eq_true.2 ⟨o, mem, decide_eq_true same⟩)]
  · rw [eq, if_neg]
    intro there
    obtain ⟨other, mem, same⟩ := List.any_eq_true.1 there
    exact absent other mem (of_decide_eq_true same)

theorem lt_rank_of_attachScale (sound : d.Sound) (h : d.attachScale axis s = .ok d') :
    axis < d.rank := by
  unfold attachScale at h
  split at h
  · cases h
  · next inside =>
    have low := Nat.lt_of_not_le inside
    rwa [sound.scales_length] at low

end Dataset

namespace Archive

variable {a b a' : Archive} {dataset scale : Path} {id scaleId : DatasetId} {label : String}
  {axis : Nat}

/-! ## One call

The call names the scale and then attaches it.  Each of the two is a change of one dataset, and
both are looked at on their own, since the second one may be refused after the first. -/

/-- What attaching leaves alone of every dataset, on the way to the scales of one axis. -/
structure Kept (d d' : Dataset) : Prop where
  path : d'.path = d.path
  rank : d'.rank = d.rank
  scales : ∀ k, d'.scalesAt k = d.scalesAt k

/-- An archive after a scale was added to those of an axis. -/
structure Scaled (a : Archive) (id scaleId : DatasetId) (label : String) (axis : Nat)
    (a' : Archive) : Prop where
  coherent : a'.Coherent
  nodes : a'.tree.nodes = a.tree.nodes
  inside : axis < (a'.dataset id).rank
  path : (a'.dataset scaleId).path = (a.dataset scaleId).path
  named : (a'.dataset scaleId).scaleName ≠ none
  scales : (a'.dataset id).scalesAt axis =
    AttachedScale.addTo ⟨(a.dataset scaleId).path, label⟩ ((a.dataset id).scalesAt axis)

theorem ends_attachScale_named (coherent : b.Coherent) (denotes : b.tree.denoted? dataset = some id)
    (denotes' : b.tree.denoted? scale = some scaleId)
    (named : (b.dataset scaleId).scaleName ≠ none) :
    Ends (do let _ ← onContainer (Container.attachScale id scaleId label axis)) b
      (fun _ => Scaled b id scaleId label axis)
      (fun err b' => err.isUnencodable ∨
        err = .invalidIndex (b.dataset id).path "attach_scale" axis (b.dataset id).rank ∧
          (b.dataset id).rank ≤ axis ∧ b' = b) := by
  have sound := coherent.ready.sound
  have known := sound.lt_of_denoted? denotes
  have known' := sound.lt_of_denoted? denotes'
  have here := Tree.getElem?_of_lt known
  refine ends_bind.2 (ends_onContainer.2 ((Container.ends_attachScale coherent.ready here
    (Tree.getElem?_of_lt known') label axis).mono ?_ ?_))
  · rintro _ m ⟨d', attached, turned⟩
    have altered : Altered b dataset id d' { b with mounted := m } :=
      altered_of_turned coherent.ready here turned
    have inside := lt_rank_of_attachScale (sound.each here) attached
    have added := scalesAt_eq_addTo attached
    obtain ⟨scales, -, eq, -⟩ := attachScale_eq_ok attached
    have alike : ({ b with mounted := m : Archive }.dataset scaleId).path =
          (b.dataset scaleId).path ∧
        ({ b with mounted := m : Archive }.dataset scaleId).scaleName =
          (b.dataset scaleId).scaleName := by
      by_cases same : scaleId = id
      · rw [same, altered.here, eq]
        exact ⟨rfl, rfl⟩
      · rw [altered.others scaleId known' same]
        exact ⟨rfl, rfl⟩
    refine ends_pure.2 ⟨altered.coherent coherent denotes, altered.nodes, ?_, alike.1, ?_, ?_⟩
    · rw [altered.here, eq]
      exact inside
    · rw [alike.2]
      exact named
    · rw [altered.here]
      exact added
  · rintro err m (⟨rfl, beyond, rfl⟩ | ⟨unencodable, -⟩)
    · exact .inr ⟨rfl, beyond, rfl⟩
    · exact .inl unencodable

theorem ends_nameScale (coherent : a.Coherent) (denotes' : a.tree.denoted? scale = some scaleId)
    (label : String) :
    Ends (onContainer (Container.markScale scaleId label)) a
      (fun _ b => b.Coherent ∧ b.tree.nodes = a.tree.nodes ∧
        (b.dataset scaleId).scaleName ≠ none ∧
        ∀ other, other < a.tree.datasets.length → Kept (a.dataset other) (b.dataset other))
      (fun err _ => err.isUnencodable) := by
  have known' := coherent.ready.sound.lt_of_denoted? denotes'
  have here' := Tree.getElem?_of_lt known'
  refine ends_onContainer.2 ((Container.ends_markScale coherent.ready here' label).mono ?_
    fun _ _ bad => bad.1)
  rintro _ m turned
  have altered : Altered a scale scaleId _ { a with mounted := m } :=
    altered_of_turned coherent.ready here' turned
  refine ⟨altered.coherent coherent denotes', altered.nodes, ?_, fun other known => ?_⟩
  · rw [altered.here]
    exact Option.some_ne_none label
  · by_cases same : other = scaleId
    · subst same
      rw [altered.here]
      exact ⟨rfl, rfl, fun _ => rfl⟩
    · rw [altered.others other known same]
      exact ⟨rfl, rfl, fun _ => rfl⟩

/-- Attaching a scale to an axis that there is adds it, and only a record without a frame fails.
Where the axis is refused, the scale has got a name if it had none. -/
theorem ends_attachScale_denoted (coherent : a.Coherent)
    (denotes : a.tree.denoted? dataset = some id)
    (denotes' : a.tree.denoted? scale = some scaleId) (label : String) (axis : Nat) :
    Ends (attachScale dataset scale label axis) a
      (fun _ => Scaled a id scaleId label axis)
      (fun err a' => err.isUnencodable ∨
        err = .invalidIndex (a.dataset id).path "attach_scale" axis (a.dataset id).rank ∧
          (a.dataset id).rank ≤ axis ∧
          (a' = a ∨ (a.dataset scaleId).scaleName = none ∧
            onContainer (Container.markScale scaleId label) a = .ok () a')) := by
  have known := coherent.ready.sound.lt_of_denoted? denotes
  have known' := coherent.ready.sound.lt_of_denoted? denotes'
  unfold attachScale
  simp only [ends_bind, ends_get, coherent.lookup_eq_ok denotes, coherent.lookup_eq_ok denotes',
    ends_liftExcept_ok]
  split
  · next nameless =>
    have itself : Ends (onContainer (Container.markScale scaleId label)) a
        (fun _ b => onContainer (Container.markScale scaleId label) a = .ok () b)
        (fun _ _ => True) := ends_of_forall (fun _ _ eq => eq) fun _ _ _ => trivial
    refine ends_bind.2 (((ends_nameScale coherent denotes' label).and itself).mono ?_
      fun _ _ bad => .inl bad.1)
    rintro _ b ⟨⟨coherent', nodes, named, kept⟩, ran⟩
    refine (ends_attachScale_named coherent' ((Tree.denoted?_congr nodes _).trans denotes)
      ((Tree.denoted?_congr nodes _).trans denotes') named).mono ?_ ?_
    · rintro _ a' scaled
      refine ⟨scaled.coherent, scaled.nodes.trans nodes, scaled.inside,
        scaled.path.trans (kept scaleId known').path, scaled.named, ?_⟩
      rw [scaled.scales, (kept scaleId known').path, (kept id known).scales]
    · rintro err a' (unencodable | ⟨rfl, beyond, rfl⟩)
      · exact .inl unencodable
      · rw [(kept id known).path, (kept id known).rank] at *
        exact .inr ⟨rfl, beyond, .inr ⟨Option.isNone_iff_eq_none.1 nameless, ran⟩⟩
  · next named =>
    have named : (a.dataset scaleId).scaleName ≠ none :=
      fun none => named (Option.isNone_iff_eq_none.2 none)
    refine (ends_attachScale_named coherent denotes denotes' named).mono (fun _ _ good => good) ?_
    rintro err a' (unencodable | ⟨rfl, beyond, rfl⟩)
    · exact .inl unencodable
    · exact .inr ⟨rfl, beyond, .inl rfl⟩

/-- A scale that an axis has got is attached again without any change. -/
theorem Scaled.again (h : Scaled a id scaleId label axis a')
    (denotes : a.tree.denoted? dataset = some id)
    (denotes' : a.tree.denoted? scale = some scaleId) :
    attachScale dataset scale label axis a' = .ok () a' := by
  have found := h.coherent.lookup_eq_ok ((Tree.denoted?_congr h.nodes _).trans denotes)
    "attach_scale"
  have found' := h.coherent.lookup_eq_ok ((Tree.denoted?_congr h.nodes _).trans denotes')
    "attach_scale"
  have named : ¬(a'.dataset scaleId).scaleName.isNone = true :=
    fun none => h.named (Option.isNone_iff_eq_none.1 none)
  have there : ((a'.dataset id).scalesAt axis).any (·.scale = (a'.dataset scaleId).path) =
      true := by
    rw [h.scales, h.path]
    exact AttachedScale.any_addTo ⟨_, label⟩ _
  have still : Ends (attachScale dataset scale label axis) a' (fun _ b => b = a')
      (fun _ _ => False) := by
    unfold attachScale
    simp only [ends_bind, ends_get, found, found', ends_liftExcept_ok, if_neg named]
    refine ends_onContainer.2 ?_
    unfold Container.attachScale
    exact ends_bind.2 (ends_get.2 (ends_ite.2
      ⟨fun beyond => absurd beyond (Nat.not_le_of_lt h.inside), fun _ =>
        ends_ite.2 ⟨fun _ => ends_pure.2 (ends_pure.2 rfl), fun absent => absurd there absent⟩⟩))
  obtain ⟨⟨⟩, _, ran, rfl⟩ := still.exists_ok
  exact ran

/-- What is left of attaching a scale to an axis that is not there: the name of the scale. -/
def NamedBeyond (a : Archive) (dataset scale : Path) (label : String) (axis : Nat)
    (err : StorageError) (a' : Archive) : Prop :=
  ∃ id scaleId, a.tree.denoted? dataset = some id ∧ a.tree.denoted? scale = some scaleId ∧
    (a.dataset scaleId).scaleName = none ∧ (a.dataset id).rank ≤ axis ∧
    err = .invalidIndex (a.dataset id).path "attach_scale" axis (a.dataset id).rank ∧
    onContainer (Container.markScale scaleId label) a = .ok () a'

/-- Attaching a scale, whether or not there is something at its path. -/
theorem ends_attachScale_scaled (coherent : a.Coherent) (dataset scale : Path) (label : String)
    (axis : Nat) :
    Ends (attachScale dataset scale label axis) a
      (fun _ a' => ∃ id scaleId, a.tree.denoted? dataset = some id ∧
        a.tree.denoted? scale = some scaleId ∧ Scaled a id scaleId label axis a')
      (fun err a' =>
        err.isUnencodable ∨ a' = a ∨ NamedBeyond a dataset scale label axis err a') := by
  cases found : a.lookup dataset "attach_scale" with
  | error err =>
    unfold attachScale
    simp only [ends_bind, ends_get, found, ends_liftExcept_error]
    exact .inr (.inl trivial)
  | ok id =>
    cases found' : a.lookup scale "attach_scale" with
    | error err =>
      unfold attachScale
      simp only [ends_bind, ends_get, found, found', ends_liftExcept_ok, ends_liftExcept_error]
      exact .inr (.inl trivial)
    | ok scaleId =>
      have denotes := coherent.denoted?_of_lookup found
      have denotes' := coherent.denoted?_of_lookup found'
      refine (ends_attachScale_denoted coherent denotes denotes' label axis).mono ?_ ?_
      · exact fun _ _ scaled => ⟨id, scaleId, denotes, denotes', scaled⟩
      · rintro err a' (unencodable | ⟨refused, beyond, same | ⟨nameless, named⟩⟩)
        · exact .inl unencodable
        · exact .inr (.inl same)
        · exact .inr (.inr ⟨id, scaleId, denotes, denotes', nameless, beyond, refused, named⟩)

/-- A scale that was attached can be attached again at once, and nothing changes.  A scale that was
refused, and not for the length of a record, has changed nothing, unless it had no name and the
axis was not there; then it has been named. -/
theorem attachScale_all_or_nothing (coherent : a.Coherent) (dataset scale : Path) (label : String)
    (axis : Nat) :
    Ends (attachScale dataset scale label axis) a
      (fun _ a' => attachScale dataset scale label axis a' = .ok () a')
      (fun err a' =>
        err.isUnencodable ∨ a' = a ∨ NamedBeyond a dataset scale label axis err a') := by
  refine (ends_attachScale_scaled coherent dataset scale label axis).imp ?_
  rintro _ a' ⟨id, scaleId, denotes, denotes', scaled⟩
  exact scaled.again denotes denotes'

/-- Make a vector of two reals. -/
def makePair (path : Path) : Mutation :=
  .createDataset path (.scalar .real) [2] false 2 (.real .zero)

/-- A new archive with three such vectors. -/
def withVectors : Option Archive :=
  (openFile default {} default).result.toOption.map fun a =>
    let made := ["/t", "/s", "/r"].foldl (fun m path => (makePair (.ofText path)).after m) a.mounted
    { a with mounted := made }

theorem coherent_of_withVectors (h : withVectors = some a) : a.Coherent := by
  obtain ⟨a₀, opened, rfl⟩ := Option.map_eq_some_iff.1 h
  have inUse : a₀.InUse := .opened (eq_ok_of_toOption opened)
  have grow {b : Archive} (inUse : b.InUse) (path : Path) :
      Archive.InUse { b with mounted := (makePair path).after b.mounted } := inUse.changed rfl
  exact (grow (grow (grow inUse _) _) _).coherent

theorem attachScale_all_or_nothing_of_vectors : ∃ a a', withVectors = some a ∧ a.Coherent ∧
    attachScale (.ofText "/t") (.ofText "/s") "x" 0 a = .ok () a' ∧
    attachScale (.ofText "/t") (.ofText "/s") "x" 0 a' = .ok () a' := by
  have ready : withVectors.any (fun a =>
      (okState? (attachScale (.ofText "/t") (.ofText "/s") "x" 0 a)).isSome) := by decide +kernel
  obtain ⟨a, made, ran⟩ := (Option.any_eq_true ..).1 ready
  obtain ⟨a', ran⟩ := Option.isSome_iff_exists.1 ran
  obtain ⟨⟨⟩, ran⟩ := exists_ok_of_okState? ran
  have coherent := coherent_of_withVectors made
  exact ⟨a, a', made, coherent, ran,
    (attachScale_all_or_nothing coherent (.ofText "/t") (.ofText "/s") "x" 0).good_of_eq ran⟩

/-- A vector has no sixth axis, and the scale for it has its name all the same. -/
theorem attachScale_leaves_name : ∃ a a', withVectors = some a ∧ a.Coherent ∧
    attachScale (.ofText "/t") (.ofText "/s") "x" 5 a =
      .error (.invalidIndex (.ofText "/t") "attach_scale" 5 1) a' ∧
    a.isScale (.ofText "/s") = .ok false ∧ a'.isScale (.ofText "/s") = .ok true := by
  have ready : withVectors.any (fun a => a.isScale (.ofText "/s") = .ok false &&
      (failure? (attachScale (.ofText "/t") (.ofText "/s") "x" 5 a)).any fun failed =>
        failed.1 = .invalidIndex (.ofText "/t") "attach_scale" 5 1 &&
        failed.2.isScale (.ofText "/s") = .ok true) := by decide +kernel
  obtain ⟨a, made, ready⟩ := (Option.any_eq_true ..).1 ready
  simp only [Bool.and_eq_true, decide_eq_true_eq] at ready
  obtain ⟨before, ready⟩ := ready
  obtain ⟨⟨err, a'⟩, refused, ready⟩ := (Option.any_eq_true ..).1 ready
  simp only [Bool.and_eq_true, decide_eq_true_eq] at ready
  obtain ⟨rfl, after⟩ := ready
  exact ⟨a, a', made, coherent_of_withVectors made, eq_error_of_failure? refused, before, after⟩

/-! ## Many calls

Calls with whatever outcome are told together by `Course`: namespace and ranks are those of old,
and an axis has its old scales and behind them new ones, each of which some call asked for there. -/

/-- A call that attaches a scale. -/
structure ScaleCall where
  dataset : Path
  scale : Path
  label : String
  axis : Nat

namespace ScaleCall

/-- A call that attaches a scale, as one of all calls. -/
def toCall (c : ScaleCall) : Call := .attachScale c.dataset c.scale c.label c.axis

def run (c : ScaleCall) : Action Unit := c.toCall.run

end ScaleCall

/-- An archive after scales were attached, or refused. -/
def afterScales (a : Archive) (calls : List ScaleCall) : Archive :=
  a.afterCalls (calls.map ScaleCall.toCall)

/-- A call that asks for a scale on an axis of a dataset. -/
structure ScaleCall.AsksFor (a : Archive) (id : DatasetId) (axis : Nat) (s : AttachedScale)
    (c : ScaleCall) : Prop where
  dataset : a.tree.denoted? c.dataset = some id
  scale : ∃ scaleId, a.tree.denoted? c.scale = some scaleId ∧ s.scale = (a.dataset scaleId).path
  label : s.label = c.label
  axis : axis = c.axis

/-- Scales that calls have added to those of an axis: they were not there, and were asked for. -/
structure Gained (a : Archive) (calls : List ScaleCall) (id : DatasetId) (axis : Nat)
    (added : List AttachedScale) : Prop where
  new : ∀ s ∈ added, ∀ o ∈ (a.dataset id).scalesAt axis, o.scale ≠ s.scale
  asked : ∀ s ∈ added, ∃ c ∈ calls, c.AsksFor a id axis s

/-- What some of these calls lead to: every axis has its scales still, and perhaps added ones. -/
structure Course (a : Archive) (calls : List ScaleCall) (b : Archive) : Prop where
  coherent : b.Coherent
  nodes : b.tree.nodes = a.tree.nodes
  length : b.tree.datasets.length = a.tree.datasets.length
  path : ∀ id < a.tree.datasets.length, (b.dataset id).path = (a.dataset id).path
  rank : ∀ id < a.tree.datasets.length, (b.dataset id).rank = (a.dataset id).rank
  scales : ∀ id < a.tree.datasets.length, ∀ axis, ∃ added, Gained a calls id axis added ∧
    (b.dataset id).scalesAt axis = (a.dataset id).scalesAt axis ++ added

variable {calls : List ScaleCall} {c : ScaleCall}

theorem Course.refl (coherent : a.Coherent) (calls : List ScaleCall) : Course a calls a :=
  ⟨coherent, rfl, rfl, fun _ _ => rfl, fun _ _ => rfl, fun _ _ _ =>
    ⟨[], ⟨by simp, by simp⟩, (List.append_nil _).symm⟩⟩

/-- A dataset that keeps its path and extents has its scales still, and perhaps added ones. -/
theorem Course.altered {d' : Dataset} (course : Course a calls b)
    (h : Altered b dataset id d' a') (denotes : b.tree.denoted? dataset = some id)
    (path : d'.path = (b.dataset id).path) (rank : d'.rank = (b.dataset id).rank)
    (scales : ∀ axis, ∃ added, Gained a calls id axis added ∧
      d'.scalesAt axis = (a.dataset id).scalesAt axis ++ added) : Course a calls a' := by
  refine ⟨h.coherent course.coherent denotes, h.nodes.trans course.nodes,
    h.length.trans course.length, ?_, ?_, ?_⟩
  all_goals intro other known
  all_goals by_cases same : other = id
  · rw [same, h.here, path]
    exact course.path id (same ▸ known)
  · rw [h.others other (course.length ▸ known) same]
    exact course.path other known
  · rw [same, h.here, rank]
    exact course.rank id (same ▸ known)
  · rw [h.others other (course.length ▸ known) same]
    exact course.rank other known
  · rw [same, h.here]
    exact scales
  · rw [h.others other (course.length ▸ known) same]
    exact course.scales other known

theorem preserves_course (mem : c ∈ calls) : Preserves (Course a calls) c.run := by
  refine preserves_attachScale_steps (fun _ => Course.coherent) ?_ ?_
  · intro b scaleId m course denotes turned
    have known := course.length ▸ course.coherent.ready.sound.lt_of_denoted? denotes
    have altered : Altered b c.scale scaleId _ { b with mounted := m } :=
      altered_of_turned course.coherent.ready
        (Tree.getElem?_of_lt (course.coherent.ready.sound.lt_of_denoted? denotes)) turned
    exact course.altered altered denotes rfl rfl (course.scales scaleId known)
  · intro b id scaleId d' m course denotes denotes' attached turned
    have known := course.length ▸ course.coherent.ready.sound.lt_of_denoted? denotes
    have known' := course.length ▸ course.coherent.ready.sound.lt_of_denoted? denotes'
    have altered : Altered b c.dataset id d' { b with mounted := m } :=
      altered_of_turned course.coherent.ready
        (Tree.getElem?_of_lt (course.coherent.ready.sound.lt_of_denoted? denotes)) turned
    obtain ⟨scales, -, eq, -⟩ := attachScale_eq_ok attached
    refine course.altered altered denotes (by rw [eq]) (by rw [eq]; rfl) fun axis => ?_
    obtain ⟨added, taken, old⟩ := course.scales id known axis
    by_cases here : axis = c.axis
    · subst here
      rcases scalesAt_attached attached c.axis with same | ⟨eq, absent⟩
      · exact ⟨added, taken, same.trans old⟩
      · refine ⟨added ++ [⟨(b.dataset scaleId).path, c.label⟩], ⟨?_, ?_⟩, ?_⟩
        · intro s mem o there
          rcases List.mem_append.1 mem with before | last
          · exact taken.new s before o there
          · rw [List.mem_singleton.1 last]
            exact absent o (old ▸ List.mem_append_left _ there)
        · intro s mem'
          rcases List.mem_append.1 mem' with before | last
          · exact taken.asked s before
          · rw [List.mem_singleton.1 last]
            exact ⟨c, mem, (Tree.denoted?_congr course.nodes _).symm.trans denotes,
              ⟨scaleId, (Tree.denoted?_congr course.nodes _).symm.trans denotes',
                course.path scaleId known'⟩, rfl, rfl⟩
        · rw [eq, old, List.append_assoc]
    · rw [(scalesAt_of_attachScale attached).1 axis here]
      exact ⟨added, taken, old⟩

theorem Course.afterScales (course : Course a calls b) {made : List ScaleCall}
    (among : ∀ c ∈ made, c ∈ calls) : Course a calls (b.afterScales made) := by
  induction made generalizing b with
  | nil => exact course
  | cons c made ih =>
    exact ih ((preserves_course (among c List.mem_cons_self)).after course)
      fun c' mem => among c' (List.mem_cons_of_mem c mem)

theorem course_afterScales (coherent : a.Coherent) (calls : List ScaleCall) :
    Course a calls (a.afterScales calls) :=
  (Course.refl coherent calls).afterScales fun _ mem => mem

/-- What looking a label up answers after a scale was attached with it to an axis that had other
scales: the first scale with that label, which is the new one if its path and its label are new. -/
structure Answers (before : List AttachedScale) (own : Path) (label : String)
    (answer : Except StorageError Path) : Prop where
  first : ∀ o, before.find? (·.label = label) = some o → answer = .ok o.scale
  unlabelled : (∀ o ∈ before, o.label ≠ label) → ∀ o ∈ before, o.scale = own → answer ≠ .ok own
  new : (∀ o ∈ before, o.label ≠ label ∧ o.scale ≠ own) → answer = .ok own

/-- Scales that come later do not change the answer, as they are not on the axis yet. -/
theorem answers_of_addTo {before later : List AttachedScale} {own : Path} {err : StorageError}
    (new : ∀ s ∈ later, ∀ o ∈ AttachedScale.addTo ⟨own, label⟩ before, o.scale ≠ s.scale) :
    Answers before own label
      (match (AttachedScale.addTo ⟨own, label⟩ before ++ later).find? (·.label = label) with
      | some s => .ok s.scale
      | none => .error err) := by
  have unknown (h : ∀ o ∈ before, o.label ≠ label) :
      before.find? (·.label = label) = none := by simpa using h
  refine ⟨fun o found => ?_, fun unlabelled o mem same => ?_, fun absent => ?_⟩
  · have kept : (AttachedScale.addTo ⟨own, label⟩ before).find? (·.label = label) = some o := by
      unfold AttachedScale.addTo
      split
      · exact found
      · rw [List.find?_append, found]
        rfl
    rw [List.find?_append, kept]
    rfl
  · have there : before.any (·.scale = own) := List.any_eq_true.2 ⟨o, mem, decide_eq_true same⟩
    rw [AttachedScale.addTo, if_pos there] at new ⊢
    rw [List.find?_append, unknown unlabelled, Option.none_or]
    split
    · next s found =>
      intro eq
      cases eq
      exact new s (List.mem_of_find?_eq_some found) o mem same
    · exact nofun
  · have missing : ¬before.any (·.scale = own) = true := by
      simpa using fun o mem => (absent o mem).2
    rw [AttachedScale.addTo, if_neg missing, List.append_assoc, List.find?_append,
      unknown fun o mem => (absent o mem).1]
    simp

/-- After calls that attached scales, one more call that succeeds, and more calls yet, the label of
that call is looked up among the scales that its axis had when the call was made: those of old, and
those that an earlier call asked for. -/
theorem finds_first_label (coherent : a.Coherent) (calls : List ScaleCall) (c : ScaleCall)
    (ran : c.run (a.afterScales calls) = .ok () a') (later : List ScaleCall) :
    ∃ id scaleId added, a.tree.denoted? c.dataset = some id ∧
      a.tree.denoted? c.scale = some scaleId ∧ Gained a calls id c.axis added ∧
      ((a.afterScales calls).dataset id).scalesAt c.axis =
        (a.dataset id).scalesAt c.axis ++ added ∧
      Answers ((a.dataset id).scalesAt c.axis ++ added) (a.dataset scaleId).path c.label
        ((a'.afterScales later).scaleByLabel c.dataset c.axis c.label) := by
  have course := course_afterScales coherent calls
  obtain ⟨id, scaleId, denotes, denotes', scaled⟩ :=
    (ends_attachScale_scaled course.coherent c.dataset c.scale c.label c.axis).good_of_eq ran
  have known := course.length ▸ course.coherent.ready.sound.lt_of_denoted? denotes
  have known' := course.length ▸ course.coherent.ready.sound.lt_of_denoted? denotes'
  obtain ⟨added, taken, before⟩ := course.scales id known c.axis
  refine ⟨id, scaleId, added, (Tree.denoted?_congr course.nodes _).symm.trans denotes,
    (Tree.denoted?_congr course.nodes _).symm.trans denotes', taken, before, ?_⟩
  have course' := course_afterScales scaled.coherent later
  have still := (Tree.denoted?_congr scaled.nodes _).trans denotes
  have known := scaled.coherent.ready.sound.lt_of_denoted? still
  have inside : c.axis < ((a'.afterScales later).dataset id).rank := by
    rw [course'.rank id known]
    exact scaled.inside
  obtain ⟨added', taken', after⟩ := course'.scales id known c.axis
  have new := taken'.new
  rw [scaled.scales, before, course.path scaleId known'] at new after
  rw [scaleByLabel_of_inside course'.coherent ((Tree.denoted?_congr course'.nodes _).trans still)
    inside, after]
  exact answers_of_addTo new

/-- Attach `/s` as `x` to the axis of `/t`. -/
def attachFirst : ScaleCall := ⟨.ofText "/t", .ofText "/s", "x", 0⟩

/-- A second scale is found by a label of its own, though the first one is attached with it, too. -/
theorem finds_first_label_of_vectors : ∃ a a', withVectors = some a ∧ a.Coherent ∧
    ScaleCall.run ⟨.ofText "/t", .ofText "/r", "y", 0⟩ (a.afterScales [attachFirst]) = .ok () a' ∧
    (a'.afterScales [⟨.ofText "/t", .ofText "/s", "y", 0⟩]).scaleByLabel (.ofText "/t") 0 "y" =
      .ok (.ofText "/r") := by
  have ready : withVectors.any (fun a => a.tree.denoted? (.ofText "/t") = some 0 ∧
      a.tree.denoted? (.ofText "/s") = some 1 ∧ a.tree.denoted? (.ofText "/r") = some 2 ∧
      (a.dataset 1).path = .ofText "/s" ∧ (a.dataset 2).path = .ofText "/r" ∧
      (a.dataset 0).scalesAt 0 = [] ∧
      (okState? (ScaleCall.run ⟨.ofText "/t", .ofText "/r", "y", 0⟩
        (a.afterScales [attachFirst]))).isSome) := by decide +kernel
  obtain ⟨a, made, ready⟩ := (Option.any_eq_true ..).1 ready
  obtain ⟨table, first, second, firstPath, secondPath, bare, ran⟩ := of_decide_eq_true ready
  obtain ⟨a', ran⟩ := Option.isSome_iff_exists.1 ran
  obtain ⟨⟨⟩, ran⟩ := exists_ok_of_okState? ran
  have coherent := coherent_of_withVectors made
  obtain ⟨id, scaleId, added, denotes, denotes', taken, -, answers⟩ :=
    finds_first_label coherent [attachFirst] ⟨.ofText "/t", .ofText "/r", "y", 0⟩ ran
      [⟨.ofText "/t", .ofText "/s", "y", 0⟩]
  cases table.symm.trans denotes
  cases second.symm.trans denotes'
  rw [bare, secondPath] at answers
  refine ⟨a, a', made, coherent, ran, answers.new fun o mem => ?_⟩
  obtain ⟨c, mem, asked⟩ := taken.asked o mem
  cases List.mem_singleton.1 mem
  obtain ⟨firstId, denotes, path⟩ := asked.scale
  cases first.symm.trans denotes
  rw [asked.label, path, firstPath]
  decide

/-- Where a label stands for a scale already, the next scale with that label is not found by it; and
a scale that has a label is not found by another one. -/
theorem misses_attached_scale : ∃ a b c, withVectors = some a ∧ a.Coherent ∧
    ScaleCall.run ⟨.ofText "/t", .ofText "/r", "x", 0⟩ (a.afterScales [attachFirst]) = .ok () b ∧
    b.scaleByLabel (.ofText "/t") 0 "x" = .ok (.ofText "/s") ∧
    ScaleCall.run ⟨.ofText "/t", .ofText "/s", "y", 0⟩ (a.afterScales [attachFirst]) = .ok () c ∧
    c.scaleByLabel (.ofText "/t") 0 "y" = .error (.notFound (.ofText "/t/y") "scale_by_label") := by
  have ready : withVectors.any (fun a =>
      (okState? (ScaleCall.run ⟨.ofText "/t", .ofText "/r", "x", 0⟩
        (a.afterScales [attachFirst]))).any (fun b =>
          b.scaleByLabel (.ofText "/t") 0 "x" = .ok (.ofText "/s")) &&
      (okState? (ScaleCall.run ⟨.ofText "/t", .ofText "/s", "y", 0⟩
        (a.afterScales [attachFirst]))).any fun c =>
          c.scaleByLabel (.ofText "/t") 0 "y" =
            .error (.notFound (.ofText "/t/y") "scale_by_label")) := by decide +kernel
  obtain ⟨a, made, ready⟩ := (Option.any_eq_true ..).1 ready
  obtain ⟨ready, ready'⟩ := Bool.and_eq_true_iff.1 ready
  obtain ⟨b, ran, shared⟩ := (Option.any_eq_true ..).1 ready
  obtain ⟨c, ran', missing⟩ := (Option.any_eq_true ..).1 ready'
  obtain ⟨⟨⟩, ran⟩ := exists_ok_of_okState? ran
  obtain ⟨⟨⟩, ran'⟩ := exists_ok_of_okState? ran'
  exact ⟨a, b, c, made, coherent_of_withVectors made, ran, of_decide_eq_true shared, ran',
    of_decide_eq_true missing⟩

end Archive
end StudyArchive
