import StudyArchive.Proofs.Evaluation.Alignment
/-
# Calls under way

A call of the store of evaluations takes many records.  What the archive may be after each of them
(`Recording.OnTheWay`) is one of three things, by what the call is about: something is being made,
inputs are being appended, or a response is being written (`Recording.Sound.way_after`).
-/

namespace StudyArchive

open Dataset (Alike Appended)

theorem Archive.InputsSoFar.alike {root : Path} {s : EvaluationSchema} {x : EvaluationInputs}
    {a b : Archive} (soFar : Archive.InputsSoFar root s x a b) :
    Archive.Reworked root (fun _ => Alike) a b := by
  obtain ⟨done, here, rest, -, reworked⟩ := soFar
  refine reworked.mono fun part d d' changed => ?_
  split at changed
  · exact changed.alike
  · split at changed
    · exact changed.elim Appended.alike Appended.alike
    · exact changed ▸ .refl d

theorem EvaluationPart.AnsweredSoFar.alike {part : EvaluationPart} {i : Nat} {d d' : Dataset}
    (changed : part.AnsweredSoFar i d d') : Alike d d' := by
  unfold AnsweredSoFar at changed
  split at changed
  · exact changed.alike
  · exact changed ▸ .refl d

namespace Recording

variable {r r' : Recording}

/-- What an archive may be on the way of a call. -/
inductive OnTheWay (r : Recording) (c : StoreCall) (b : Archive) : Prop
  /-- Something is being made. -/
  | furthered (h : Archive.Furthered r.archive b)
  /-- The inputs of an evaluation are being appended. -/
  | inputs {p : Producer} {s : EvaluationSchema} {x : EvaluationInputs} {n : Nat}
      (call : c = .storeVariables p x) (hr : IsProducerRoot p.root)
      (stored : Journal.storedBy? r (c.after r) p = some s)
      (dims : ∀ part : EvaluationPart,
        (r.archive.at? (part.path p.root)).map Dataset.dims = (part.shape? s).map (n :: ·))
      (soFar : Archive.InputsSoFar p.root s x r.archive b)
  /-- A response is being written into a row. -/
  | response {root : Path} {i : Nat} (hr : IsProducerRoot root)
      (soFar : Archive.Reworked root (EvaluationPart.AnsweredSoFar i) r.archive b)

/-- While inputs are appended or a response is written, each part stays one of its kind. -/
theorem OnTheWay.furthered_or_reworked {c : StoreCall} {b : Archive} (way : OnTheWay r c b) :
    Archive.Furthered r.archive b ∨
      ∃ root, IsProducerRoot root ∧ Archive.Reworked root (fun _ => Alike) r.archive b := by
  cases way with
  | furthered furthered => exact .inl furthered
  | inputs _ hr _ _ soFar => exact .inr ⟨_, hr, soFar.alike⟩
  | response hr soFar => exact .inr ⟨_, hr, soFar.mono fun _ _ _ changed => changed.alike⟩

/-- An archive stays laid out for evaluations on the way of a call. -/
theorem Sound.laidOut_onTheWay (sound : r.Sound) {c : StoreCall} {b : Archive}
    (way : OnTheWay r c b) : b.LaidOut := by
  rcases way.furthered_or_reworked with furthered | ⟨root, hr, reworked⟩
  · cases furthered with
    | shared built => exact built.laidOut
    | founded _ built _ => exact built.laidOut
  · exact reworked.laidOut sound.laidOut hr fun _ _ _ alike => alike

/-- A call that leaves evaluations alone does so record by record. -/
theorem EndsQuietly.led {c : StoreCall} (h : EndsQuietly c.run r)
    (within : c.overflows r = false) : Led r (c.after r) := by
  unfold StoreCall.overflows at within
  unfold StoreCall.after stateAfter
  split at within
  · next ran =>
    rw [ran]
    exact (h.good_of_eq ran).2
  · next ran =>
    rw [ran]
    refine (h.bad_of_eq ran).2.resolve_left fun failed => ?_
    cases within.symm.trans failed

theorem Sound.way_after (sound : r.Sound) (c : StoreCall) (proper : c.IsProper)
    (within : c.overflows r = false) :
    Archive.Passes (OnTheWay r c) r.archive (c.after r).archive := by
  have led {c : StoreCall} (within : c.overflows r = false) (ended : EndsQuietly c.run r) :
      Archive.Passes (OnTheWay r c) r.archive (c.after r).archive :=
    (ended.led within).mono fun _ => .furthered
  cases c with
  | allocate p inputs response active => exact led within (ends_allocate sound proper ..)
  | storeVariables p x =>
    generalize after : StoreCall.after r (.storeVariables p x) = r'
    rcases StoreCall.after_of_ends (c := .storeVariables p x) (ends_storeVariables sound x)
      within with ended | same
    · rw [after] at ended
      cases ended with
      | refused _ same =>
        rw [same]
        exact .refl
      | @stored record n known fit dims appended way slots producers =>
        have hr := Producer.segments_root (sound.known p record known).1.proper
        refine way.mono fun b soFar => .inputs rfl hr ?_ dims soFar
        rw [after]
        exact Journal.storedBy?_of_appended (EvaluationStore.schema?_of_get? known) dims appended
    · rw [← after, same]
      exact .refl
  | storeResponse p id response =>
    generalize after : StoreCall.after r (.storeResponse p id response) = r'
    rcases StoreCall.after_of_ends (c := .storeResponse p id response)
      (ends_storeResponse sound id response) within with ended | same
    · rw [after] at ended
      cases ended with
      | passed _ same =>
        rw [same]
        exact .refl
      | dropped _ _ _ _ same =>
        rw [same]
        exact .refl
      | @stored record i waits known _ answered way store =>
        have hr := Producer.segments_root (sound.known p record known).1.proper
        exact way.mono fun b => .response hr
    · rw [← after, same]
      exact .refl
  | abandon p id => exact .refl
  | declareSource owner source => exact led within (ends_declareSource sound proper source)
  | storeParameters p parameters => exact led within (ends_storeParameters sound proper parameters)
  | addMethodModel id => exact .refl
  | setTopModel id => exact .refl
  | select models interfaces => exact .refl

end Recording
end StudyArchive
