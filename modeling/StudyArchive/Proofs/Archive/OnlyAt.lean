import StudyArchive.Archive.Read
import StudyArchive.Proofs.Archive.Footprint
/-
# What is left alone

A step that is confined to places may still make datasets, and name others as scales.  Of a step
that only makes datasets and writes to them more can be said: every dataset that no place denoted is
the same, every new one is denoted by a place, and no path got an object but the places and the
paths above them (`Archive.OnlyAt`).  From this follows what a reader of another path sees of the
step, which is nothing (`Archive.OnlyAt.readRecords_eq`), also where a link may have led to nothing
before.
-/

namespace StudyArchive.Archive

variable {a a' a'' : Archive} {S T : Path → Prop} {path : Path} {id : DatasetId} {d : Dataset}

/-- An archive in which everything is left as it was but what places denote, which may be new. -/
structure OnlyAt (S : Path → Prop) (a a' : Archive) : Prop where
  coherent : a'.Coherent
  length : a.tree.datasets.length ≤ a'.tree.datasets.length
  denotes : ∀ q id, id < a.tree.datasets.length →
    (a'.tree.denoted? q = some id ↔ a.tree.denoted? q = some id)
  kept : ∀ id, id < a.tree.datasets.length → (∀ path, S path → a.tree.denoted? path ≠ some id) →
    a'.dataset id = a.dataset id
  new : ∀ q id, a'.tree.denoted? q = some id →
    id < a.tree.datasets.length ∨ ∃ path, S path ∧ a'.tree.denoted? path = some id
  free : ∀ q, a.contains q = false →
    a'.contains q = false ∨ ∃ path, S path ∧ q.segments <+: path.segments

theorem Coherent.lt_of_denoted? (coherent : a.Coherent) (denotes : a.tree.denoted? path = some id) :
    id < a.tree.datasets.length :=
  coherent.ready.sound.lt_of_denoted? denotes

theorem Coherent.onlyAt (coherent : a.Coherent) : OnlyAt S a a where
  coherent := coherent
  length := Nat.le_refl _
  denotes _ _ _ := Iff.rfl
  kept _ _ _ := rfl
  new _ _ denotes := .inl (coherent.lt_of_denoted? denotes)
  free _ none := .inl none

namespace OnlyAt

theorem mono (h : OnlyAt S a a') (more : ∀ path, S path → T path) : OnlyAt T a a' where
  coherent := h.coherent
  length := h.length
  denotes := h.denotes
  kept id known apart := h.kept id known fun path place => apart path (more path place)
  new q id denotes := (h.new q id denotes).imp_right fun ⟨path, place, same⟩ =>
    ⟨path, more path place, same⟩
  free q none := (h.free q none).imp_right fun ⟨path, place, above⟩ =>
    ⟨path, more path place, above⟩

/-- What a path denoted it denotes still. -/
theorem denoted? (h : OnlyAt S a a') (coherent : a.Coherent)
    (denotes : a.tree.denoted? path = some id) : a'.tree.denoted? path = some id :=
  (h.denotes path id (coherent.lt_of_denoted? denotes)).2 denotes

theorem trans (h : OnlyAt S a a') (h' : OnlyAt S a' a'') : OnlyAt S a a'' where
  coherent := h'.coherent
  length := Nat.le_trans h.length h'.length
  denotes q id known :=
    (h'.denotes q id (Nat.lt_of_lt_of_le known h.length)).trans (h.denotes q id known)
  kept id known apart := by
    have same : a''.dataset id = a'.dataset id := by
      refine h'.kept id (Nat.lt_of_lt_of_le known h.length) fun path place denotes => ?_
      exact apart path place ((h.denotes path id known).1 denotes)
    exact same.trans (h.kept id known apart)
  new q id denotes := by
    rcases h'.new q id denotes with known | new
    · have before := (h'.denotes q id known).1 denotes
      refine (h.new q id before).imp_right fun ⟨path, place, same⟩ => ?_
      exact ⟨path, place, h'.denoted? h.coherent same⟩
    · exact .inr new
  free q none := by
    rcases h.free q none with none' | above
    · exact h'.free q none'
    · exact .inr above

/-- A step at the first place of a list, and one at the others. -/
theorem cons {α : Type} (place : α → Path) {x : α} {l : List α}
    (h : OnlyAt (· = place x) a a') (h' : OnlyAt (fun q => ∃ y ∈ l, q = place y) a' a'') :
    OnlyAt (fun q => ∃ y ∈ x :: l, q = place y) a a'' := by
  refine .trans (h.mono fun q same => ⟨x, List.mem_cons_self, same⟩) (h'.mono ?_)
  rintro q ⟨y, mem, same⟩
  exact ⟨y, List.mem_cons_of_mem x mem, same⟩

/-- A reader of a path sees nothing of a step that left alone what the path denotes. -/
theorem same_of_apart (h : OnlyAt S a a') (coherent : a.Coherent)
    (apart : ∀ p, S p → ∀ id, a'.tree.denoted? path = some id → a'.tree.denoted? p ≠ some id) :
    a'.tree.denoted? path = a.tree.denoted? path ∧
      ∀ id, a.tree.denoted? path = some id → a'.dataset id = a.dataset id := by
  constructor
  · cases denotes : a'.tree.denoted? path with
    | some id =>
      rcases h.new path id denotes with known | ⟨p, place, same⟩
      · exact ((h.denotes path id known).1 denotes).symm
      · exact absurd same (apart p place id denotes)
    | none =>
      cases before : a.tree.denoted? path with
      | none => rfl
      | some id =>
        rw [h.denoted? coherent before] at denotes
        cases denotes
  · intro id denotes
    refine h.kept id (coherent.lt_of_denoted? denotes) fun p place there => ?_
    exact apart p place id (h.denoted? coherent denotes) (h.denoted? coherent there)

end OnlyAt

/-- What is read from a path as records depends on nothing but the dataset that it denotes. -/
theorem Coherent.readRecords_congr (coherent : a.Coherent) (coherent' : a'.Coherent)
    (names : a'.tree.denoted? path = a.tree.denoted? path)
    (same : ∀ id, a.tree.denoted? path = some id → a'.dataset id = a.dataset id) :
    a'.readRecords path = a.readRecords path := by
  unfold readRecords lookupRank
  simp only
  rw [coherent.lookup_eq, coherent'.lookup_eq, Tree.openDataset_eq, Tree.openDataset_eq, names]
  cases denotes : a.tree.denoted? path with
  | none => rfl
  | some id =>
    simp only [bind, Except.bind, pure, Except.pure]
    rw [same id denotes]
    cases expectRank (a.dataset id) "read_records" 1 with
    | error e => rfl
    | ok _ => simp only [same id denotes]

theorem OnlyAt.readRecords_eq (h : OnlyAt S a a') (coherent : a.Coherent)
    (apart : ∀ p, S p → ∀ id, a'.tree.denoted? path = some id → a'.tree.denoted? p ≠ some id) :
    a'.readRecords path = a.readRecords path := by
  obtain ⟨names, same⟩ := h.same_of_apart coherent apart
  exact coherent.readRecords_congr h.coherent names same

/-! ## Steps that leave everything else alone -/

theorem Within.onlyAt (h : Within id a a') (place : S path)
    (denotes : a.tree.denoted? path = some id) : OnlyAt S a a' where
  coherent := h.coherent
  length := h.length.ge
  denotes q _ _ := by rw [Tree.denoted?_congr h.nodes q]
  kept other known apart := by
    refine h.others other known fun same => ?_
    subst same
    exact apart path place denotes
  new q other denotes' := .inl (h.length ▸ h.coherent.lt_of_denoted? denotes')
  free q none := by
    refine .inl ?_
    unfold contains
    rw [h.nodes]
    exact none

theorem onlyAt_of_made (coherent : a.Coherent) (coherent' : a'.Coherent)
    (made : Container.Made a.mounted d a'.mounted) (place : S d.path) : OnlyAt S a a' := by
  have sound := coherent.ready.sound
  have spared : Spared (fun _ => False) a { a with mounted := a'.mounted } :=
    spared_of_made coherent made
  refine ⟨coherent', spared.length, spared.denotes, fun id known _ => ?_, fun q id denotes => ?_,
    fun q none => ?_⟩
  · exact Tree.dataset_of_getElem? (coherent.kept_of_made made known)
  · have node : a'.tree.nodes.get? (a'.dataset id).path = some (.dataset id) :=
      coherent'.ready.sound.placed (Tree.getElem?_of_lt (coherent'.lt_of_denoted? denotes))
    by_cases here : (a'.dataset id).path = d.path
    · rw [here] at node
      exact .inr ⟨d.path, place, Tree.denoted?_of_node node⟩
    · rcases made.planted.nodes _ here with same | ⟨-, group, -⟩
      · obtain ⟨_, found, -⟩ := sound.named (same.symm.trans node)
        exact .inl (Tree.lt_of_getElem? found)
      · cases group.symm.trans node
  · by_cases here : q = d.path
    · exact .inr ⟨d.path, place, here ▸ List.prefix_refl _⟩
    · rcases made.planted.nodes q here with same | ⟨-, -, above⟩
      · refine .inl ?_
        unfold contains SortedMap.contains at none ⊢
        rw [← none]
        exact congrArg Option.isSome same
      · exact .inr ⟨d.path, place, above.trans (List.dropLast_prefix _)⟩

end StudyArchive.Archive
