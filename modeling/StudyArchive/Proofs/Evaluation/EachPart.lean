import StudyArchive.Proofs.Archive.Rows
import StudyArchive.Proofs.Evaluation.Building
/-
# One step for each part

The inputs of an evaluation are appended part by part, and its response is written part by part.
What comes of all the steps together is said by what comes of each of them
(`Archive.ends_forM_parts`): the parts have places of their own, so a step finds its part as it was
before the first step.  On the way, the parts before one of them are as they should be and those
after it as they were (`Archive.Halfway`).
-/

namespace StudyArchive.Archive

variable {a a' a'' : Archive} {root : Path} {part : EvaluationPart} {d d' : Dataset}

/-- How each part's dataset became another one. -/
abbrev PartChange := EvaluationPart → Dataset → Dataset → Prop

variable {change change' : PartChange}

/-- An archive in which the parts of one producer's group changed, and nothing else. -/
structure Reworked (root : Path) (change : PartChange) (a a' : Archive) : Prop where
  sound : a'.Sound
  nodes : a'.tree.nodes = a.tree.nodes
  parts : ∀ (part : EvaluationPart) d, a.at? (part.path root) = some d →
    ∃ d', a'.at? (part.path root) = some d' ∧ change part d d'
  rest : ∀ q, (∀ part : EvaluationPart, q ≠ part.path root) → a'.at? q = a.at? q

theorem Sound.reworked_self (sound : a.Sound) (same : ∀ part d, change part d d) :
    Reworked root change a a :=
  ⟨sound, rfl, fun part d found => ⟨d, found, same part d⟩, fun _ _ => rfl⟩

theorem Reworked.mono (h : Reworked root change a a')
    (imp : ∀ part d d', change part d d' → change' part d d') : Reworked root change' a a' where
  sound := h.sound
  nodes := h.nodes
  parts part d found := by
    obtain ⟨d', found', changed⟩ := h.parts part d found
    exact ⟨d', found', imp part d d' changed⟩
  rest := h.rest

theorem Reworked.none (h : Reworked root change a a') (laid : a.LaidOut) {q : Path}
    (absent : a.at? q = none) : a'.at? q = none := by
  cases found : a'.at? q with
  | none => rfl
  | some d' =>
    obtain ⟨id, node, -⟩ := Tree.at?_eq_some.1 found
    obtain ⟨d, there, -⟩ := laid.sound.ready.sound.named ((congrArg (SortedMap.get? · q)
      h.nodes).symm.trans node)
    have node' : a.tree.nodes.get? q = some (.dataset id) :=
      (congrArg (SortedMap.get? · q) h.nodes).symm.trans node
    rw [show a.at? q = some d from (Tree.at?_of_node node').trans there] at absent
    cases absent

theorem Reworked.laidOut (h : Reworked root change a a') (laid : a.LaidOut)
    (hr : IsProducerRoot root) (alike : ∀ part d d', change part d d' → Dataset.Alike d d') :
    a'.LaidOut where
  sound := h.sound
  links q target node := laid.links q target (h.nodes ▸ node)
  parts root' hr' part node there := by
    obtain ⟨d, found, fits⟩ := laid.parts root' hr' part node (h.nodes ▸ there)
    by_cases own : root' = root
    · subst own
      obtain ⟨d', found', changed⟩ := h.parts part d found
      exact ⟨d', found', fits.alike (alike part d d' changed)⟩
    · refine ⟨d, (h.rest _ fun part' same => own ?_).trans found, fits⟩
      exact (EvaluationPart.path_injective hr' hr same).2

theorem Reworked.turned (h : Reworked root change a a') (hr : IsProducerRoot root)
    (turned : Turned a' (part.path root) d' a'') {d : Dataset}
    (found : a.at? (part.path root) = some d) (changed : change' part d d')
    (others : ∀ other d d', other ≠ part → change other d d' → change' other d d') :
    Reworked root change' a a'' where
  sound := turned.sound
  nodes := turned.nodes.trans h.nodes
  parts other e there := by
    by_cases same : other = part
    · subst same
      rw [found] at there
      cases there
      exact ⟨d', turned.here, changed⟩
    · obtain ⟨e', there', changed'⟩ := h.parts other e there
      refine ⟨e', (turned.there fun eq => same ?_).trans there', others other e e' same changed'⟩
      exact (EvaluationPart.path_injective hr hr eq).1
  rest q apart := (turned.there (apart part)).trans (h.rest q apart)

/-- An archive on the way of changes to parts, one after the other: those before one of them have
changed, those after it have not. -/
def Halfway (root : Path) (parts : List EvaluationPart) (mid good : PartChange) (a b : Archive) :
    Prop :=
  ∃ done part rest, done ++ part :: rest = parts ∧
    Reworked root (fun other d d' =>
      if other ∈ done then good other d d'
      else if other = part then mid other d d'
      else d' = d) a b

/-- An archive in which the parts of a list changed, one after the other. -/
structure EachReworked (root : Path) (parts : List EvaluationPart) (mid good : PartChange)
    (a a' : Archive) : Prop where
  reworked : Reworked root (fun part d d' => if part ∈ parts then good part d d' else d' = d) a a'
  way : Passes (Halfway root parts mid good a) a a'

/-- A step for each part of a list: a step for a part that is there changes its dataset, and a step
for one that is not changes nothing. -/
theorem ends_forM_parts (mid good bad : PartChange) (sound : a.Sound) (hr : IsProducerRoot root)
    {f : EvaluationPart → Action PUnit} {parts : List EvaluationPart} (nodup : parts.Nodup)
    (same : ∀ part d, bad part d d) (worse : ∀ part d d', good part d d' → bad part d d')
    (absent : ∀ part ∈ parts, a.at? (part.path root) = none → f part = pure PUnit.unit)
    (step : ∀ part ∈ parts, ∀ d, a.at? (part.path root) = some d → ∀ a₁ : Archive, a₁.Sound →
      a₁.at? (part.path root) = some d →
        Ends (f part) a₁
          (fun _ => TurnsInto a₁ (part.path root) (mid part d) (good part d))
          (fun e a₂ => e.isUnencodable ∧
            ∃ d', bad part d d' ∧ Turned a₁ (part.path root) d' a₂)) :
    Ends (parts.forM f) a (fun _ => EachReworked root parts mid good a)
      (fun e a' => e.isUnencodable ∧ Reworked root bad a a') := by
  -- The parts before the ones to come are as they should be, the others as they were.
  suffices run : ∀ (done todo : List EvaluationPart) (a₁ : Archive), done ++ todo = parts →
      Reworked root (fun part d d' => if part ∈ done then good part d d' else d' = d) a a₁ →
      Passes (Halfway root parts mid good a) a a₁ →
      Ends (todo.forM f) a₁ (fun _ => EachReworked root parts mid good a)
        (fun e a' => e.isUnencodable ∧ Reworked root bad a a') from
    run [] parts a rfl (sound.reworked_self fun _ _ => by simp) .refl
  intro done todo
  induction todo generalizing done with
  | nil =>
    rintro a₁ rfl reworked way
    rw [List.append_nil] at way ⊢
    exact ends_pure.2 ⟨reworked, way⟩
  | cons part todo ih =>
    intro a₁ split reworked way
    have mem : part ∈ parts := split ▸ List.mem_append_right done (List.mem_cons_self ..)
    have fresh : part ∉ done := by
      rw [← split, List.nodup_append'] at nodup
      exact fun before => nodup.2.2 before (List.mem_cons_self ..)
    have split' : (done ++ [part]) ++ todo = parts := by rw [List.append_assoc]; exact split
    -- The step for this part changes nothing about what is known of the others.
    have spare {other : EvaluationPart} {d d' : Dataset} (apart : other ≠ part)
        (h : if other ∈ done then good other d d' else d' = d) :
        if other ∈ done ++ [part] then good other d d' else d' = d := by
      simpa [apart] using h
    cases found : a.at? (part.path root) with
    | none =>
      show Ends (f part >>= fun _ => todo.forM f) a₁ _ _
      rw [absent part mem found]
      refine ends_bind.2 (ends_pure.2 (ih _ a₁ split' ?_ way))
      refine ⟨reworked.sound, reworked.nodes, fun other d there => ?_, reworked.rest⟩
      obtain ⟨d', there', changed⟩ := reworked.parts other d there
      refine ⟨d', there', spare ?_ changed⟩
      rintro rfl
      rw [found] at there
      cases there
    | some d =>
      obtain ⟨d₁, there, kept⟩ := reworked.parts part d found
      rw [if_neg fresh] at kept
      subst kept
      refine ends_bind.2 ((step part mem d₁ found a₁ reworked.sound there).mono ?_ ?_)
      · rintro _ a₂ ⟨⟨d', changed, turned⟩, on⟩
        refine ih _ a₂ split' (reworked.turned hr turned found (by simpa using changed)
          fun other d d' apart h => spare apart h) (way.trans (on.mono ?_))
        rintro b ⟨d₂, half, turned₂⟩
        refine ⟨done, part, todo, split, reworked.turned hr turned₂ found ?_ ?_⟩
        · simpa [fresh] using half
        · intro other e e' apart h
          simpa [apart] using h
      · rintro e a₂ ⟨unencodable, d', changed, turned⟩
        refine ⟨unencodable, reworked.turned hr turned found changed fun other d d' _ h => ?_⟩
        split at h
        · exact worse other d d' h
        · exact h ▸ same other d

end StudyArchive.Archive
