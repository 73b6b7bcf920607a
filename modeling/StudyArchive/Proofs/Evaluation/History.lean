import StudyArchive.Proofs.Container.Scales
import StudyArchive.Proofs.Evaluation.Underway
/-
# Histories of recordings

A recording has come about by calls, and perhaps by dying and being opened again, with its log cut
short at some byte (`Recording.LeadsTo`).  What is true of the trees of an archive throughout its
log stays so in every recording that comes of it, if it stays so on the way of a call
(`Recording.LeadsTo.throughout`).  One such thing is that nothing is labelled below a producer's
group before there is a column of identifiers (`Tree.IdsFirst`).
-/

namespace StudyArchive

open EvaluationLayout

namespace Recording

variable {start r : Recording} {size : Nat}

/-- What comes of a recording by calls, and by going on with its file: the file holds the log up to
some byte, at least so many bytes of it, and the store is a new one. -/
inductive LeadsTo (size : Nat) (start : Recording) : Recording → Prop
  | here : LeadsTo size start start
  | called {r : Recording} (led : LeadsTo size start r) (c : StoreCall) (proper : c.IsProper)
      (within : c.overflows r = false) : LeadsTo size start (c.after r)
  | reopened {r : Recording} (led : LeadsTo size start r) {w : LogWriter}
      (isOpen : r.archive.container.writer = some w) {n : Nat} (long : size ≤ n) {disk : Disk}
      {config : StorageConfig} {id : FileId}
      (resumable : Resumable disk config id ((w.log r.archive.mounted.disk).take n))
      {stamp : Stamp} {a : Archive} (opened : (Archive.openFile disk config stamp).result = .ok a)
      {store : EvaluationStore} (producers : store.producers = ∅) (slots : store.slots = ∅) :
      LeadsTo size start ⟨a, store, []⟩

theorem LeadsTo.ran (led : LeadsTo size start r) {c : StoreCall} (proper : c.IsProper)
    {r' : Recording} (ran : c.run r = .ok () r') : LeadsTo size start r' :=
  StoreCall.after_of_ran ran ▸ led.called c proper (StoreCall.overflows_of_ran ran)

/-- A store that knows nothing yet is sound on any archive laid out for evaluations. -/
theorem sound_of_new {a : Archive} (laid : a.LaidOut) {store : EvaluationStore}
    (producers : store.producers = ∅) (slots : store.slots = ∅) :
    Recording.Sound ⟨a, store, []⟩ where
  laidOut := laid
  known p record known := by
    rw [show store.producers = ∅ from producers] at known
    cases known
  waits p id i waits := by
    rw [show store.slots = ∅ from slots] at waits
    cases waits
  unshared p id p' id' i waits := by
    rw [show store.slots = ∅ from slots] at waits
    cases waits

/-- What calls keep on their way is true of whatever comes of a recording, throughout its log. -/
theorem LeadsTo.throughout (led : LeadsTo size start r) {base : List LoggedRecord}
    {P : Tree → Prop} (sound : start.Sound) (h : start.archive.mounted.Throughout base P)
    (bytes : Header.size + (Log.joined base).length ≤ size) (laidOut : ∀ t, P t → t.IsLaidOut)
    (step : ∀ r c b, Sound r → P r.archive.tree → OnTheWay r c b →
      r.archive.tree.KeepsScales b.tree → P b.tree) :
    r.Sound ∧ r.archive.mounted.Throughout base P := by
  induction led with
  | here => exact ⟨sound, h⟩
  | called _ c proper within ih =>
    obtain ⟨sound, h⟩ := ih
    have way := (sound.way_after c proper within).keepsScales h.ready
    exact ⟨sound.after c proper,
      way.throughout h fun b ⟨way, keeps⟩ => step _ c b sound h.live way keeps⟩
  | reopened _ isOpen long resumable opened producers slots ih =>
    obtain ⟨-, h⟩ := ih
    obtain ⟨b, opened', handles, h'⟩ :=
      Archive.exists_reopened h isOpen (bytes.trans long) resumable _
    obtain rfl := Except.ok.inj (opened'.symm.trans opened)
    have laid := Archive.laidOut_of_tree (Archive.sound_of_ready h'.ready handles)
      (laidOut _ h'.live)
    exact ⟨sound_of_new laid producers slots, h'⟩

end Recording

/-! ## Identifiers come first

The column of identifiers is made before anything else of a producer.  So where there is none,
nothing of the producer was labelled either. -/

/-- A tree that is laid out for evaluations and has scales below the groups of producers only where
there is a column of identifiers. -/
structure Tree.IdsFirst (t : Tree) : Prop where
  laidOut : t.IsLaidOut
  unscaled : ∀ root, IsProducerRoot root → t.at? (EvaluationPart.ids.path root) = none →
    ∀ q, IsScalePlace root q → t.nodes.get? q = none

theorem Tree.IsBare.idsFirst {t : Tree} (bare : t.IsBare) : t.IdsFirst where
  laidOut := bare.isLaidOut
  unscaled root _ _ q place := by
    refine bare.rest q fun top => ?_
    obtain ⟨x, rest, segments, -⟩ := place
    rw [top] at segments
    cases segments

namespace Recording

variable {start r : Recording} {size : Nat}

theorem Sound.idsFirst_onTheWay (sound : r.Sound) (first : r.archive.tree.IdsFirst) {c : StoreCall}
    {b : Archive} (way : OnTheWay r c b) : b.tree.IdsFirst := by
  refine ⟨(sound.laidOut_onTheWay way).tree, fun root hr absent q place => ?_⟩
  rcases way.furthered_or_reworked with furthered | ⟨root', -, reworked⟩
  · have unscaled {owner : Option Path} (built : Archive.Built owner r.archive b) :
        b.tree.nodes.get? q = none ∨ owner = some root := by
      refine built.fresh hr place (first.unscaled root hr ?_ q place)
      cases found : r.archive.at? (EvaluationPart.ids.path root) with
      | none => exact found
      | some d =>
        obtain ⟨d', found', -⟩ := built.kept hr found
        cases absent.symm.trans found'
    cases furthered with
    | shared built => exact (unscaled built).resolve_right (by simp)
    | founded _ built there =>
      refine (unscaled built).resolve_right fun own => ?_
      obtain ⟨d, found⟩ := there
      rw [Option.some.inj own] at found
      cases absent.symm.trans found
  · rw [reworked.nodes]
    refine first.unscaled root hr ?_ q place
    cases found : r.archive.at? (EvaluationPart.ids.path root) with
    | none => exact found
    | some d =>
      obtain ⟨id, node, -⟩ := Tree.at?_eq_some.1 found
      obtain ⟨d', there, -⟩ := reworked.sound.ready.sound.named (reworked.nodes ▸ node)
      have found' := (Tree.at?_of_node (reworked.nodes ▸ node)).trans there
      cases absent.symm.trans found'

/-- In every recording that a new archive leads to, identifiers come first, throughout its log. -/
theorem Fresh.idsFirst (fresh : start.Fresh) (led : LeadsTo Header.size start r) :
    r.Sound ∧ r.archive.mounted.Throughout [] Tree.IdsFirst :=
  led.throughout fresh.sound (fresh.throughout.mono fun _ => Tree.IsBare.idsFirst) (Nat.le_refl _)
    (fun _ first => first.laidOut) fun _ _ _ sound first way _ => sound.idsFirst_onTheWay first way

end Recording
end StudyArchive
