import StudyArchive.Disk.Basic
import StudyArchive.Proofs.Step
/-
# Finding a file again

A file that was made is found under its name (`Disk.ends_makeFile`).  What is made gets a name that
was free, so ways go where they went (`Disk.KeepsNames`), if folders hold none but the disk's
(`Disk.Sound`).  Whether it succeeds or fails, making sure of folders and of a file leaves the locks
and every file that there was as they were (`Disk.Retains`).
-/

namespace StudyArchive.Disk

variable {d d' : Disk} {around : FolderId} {name : String} {e : Entry}

/-- A disk with the two folders that ways begin at, on which folders lie in folders that there are,
and hold folders that there are. -/
structure Sound (d : Disk) : Prop where
  first : 2 ≤ d.folders.size
  around : ∀ id < d.folders.size, (d.folder id).around < d.folders.size
  inner : ∀ id name k, (d.folder id).entries.get? name = some (.folder k) → k < d.folders.size

theorem sound_default : (default : Disk).Sound := by
  have bare (id : FolderId) : (default : Disk).folder id = ⟨0, ∅⟩ := by
    unfold folder
    cases found : (default : Disk).folders[id]? with
    | none => rfl
    | some f =>
      have mem : f ∈ (default : Disk).folders.toList := Array.mem_toList_iff.2
        (Array.mem_of_getElem? found)
      rcases List.mem_cons.1 mem with rfl | mem
      · rfl
      · rw [List.mem_singleton.1 mem]
        rfl
  refine ⟨Nat.le_refl 2, fun id low => ?_, fun id name k held => ?_⟩
  · rw [bare]
    exact Nat.zero_lt_of_lt low
  · rw [bare] at held
    cases held

/-! ## A name more -/

theorem folder_enter (low : around < d.folders.size) (id : FolderId) :
    (d.enter around name e).folder id = if around = id then
      { d.folder id with entries := (d.folder id).entries.insert name e } else d.folder id := by
  unfold folder enter
  simp only [Array.getElem?_modify]
  split
  · next same =>
    subst same
    rw [Array.getElem?_eq_getElem low]
    rfl
  · rfl

theorem around_enter (low : around < d.folders.size) (id : FolderId) :
    ((d.enter around name e).folder id).around = (d.folder id).around := by
  rw [folder_enter low]
  split <;> rfl

theorem get?_enter (low : around < d.folders.size) (id : FolderId) (other : String) :
    ((d.enter around name e).folder id).entries.get? other =
      if around = id ∧ name = other then some e else (d.folder id).entries.get? other := by
  rw [folder_enter low]
  by_cases here : around = id
  · rw [if_pos here]
    refine (Table.get?_insert ..).trans ?_
    simp only [here, true_and]
  · rw [if_neg here, if_neg fun both => here both.1]

/-! ## Ways -/

theorem folderAt_eq_ok {p : Spot} {id : FolderId} :
    d.folderAt p = .ok id ↔ d.entry? p = some (.folder id) := by
  unfold folderAt
  split
  · next entry =>
    rw [entry]
    simp
  · next entry =>
    rw [entry]
    simp
  · next entry =>
    rw [entry]
    simp

/-- The spot that a step leads to from a folder. -/
def spotAfter (d : Disk) (id : FolderId) : Step → Spot
  | .stay => .folder id
  | .up => .folder (d.folder id).around
  | .into name => .name id name

theorem advance_eq_ok {p q : Spot} {s : Step} :
    d.advance p s = .ok q ↔
      ∃ id, d.entry? p = some (.folder id) ∧ s.isTooLong = false ∧ q = d.spotAfter id s := by
  unfold advance
  simp only [← folderAt_eq_ok]
  cases d.folderAt p with
  | error e => simp [bind, Except.bind]
  | ok id =>
    simp only [bind, Except.bind, Except.ok.injEq, exists_eq_left', pure, Except.pure]
    cases s.isTooLong <;> cases s <;>
      simp [spotAfter, throw, throwThe, MonadExceptOf.throw, eq_comm]

/-- A spot in a folder that there is. -/
def Holds (d : Disk) : Spot → Prop
  | .folder id => id < d.folders.size
  | .name around _ => around < d.folders.size

/-- A step leads from a folder that there is to another one, or to a name in it. -/
theorem Sound.holds_of_advance (sound : d.Sound) {p q : Spot} (holds : d.Holds p) {s : Step}
    (h : d.advance p s = .ok q) : d.Holds q := by
  obtain ⟨id, entry, -, rfl⟩ := advance_eq_ok.1 h
  have low : id < d.folders.size := by
    cases p with
    | folder id' =>
      cases entry
      exact holds
    | name around name => exact sound.inner _ _ _ entry
  cases s with
  | stay => exact low
  | up => exact sound.around id low
  | into name => exact low

theorem Sound.holds_of_steps (sound : d.Sound) {steps : List Step} {p q : Spot}
    (holds : d.Holds p) (h : steps.foldlM d.advance p = .ok q) : d.Holds q := by
  induction steps generalizing p with
  | nil =>
    cases h
    exact holds
  | cons s steps ih =>
    obtain ⟨p', step, h⟩ := exists_of_bind_eq_ok h
    exact ih (sound.holds_of_advance holds step) h

/-- What lets a name lead somewhere is the name, and the way. -/
theorem reach_eq_ok {n : FileName} {p : Spot} (h : d.reach n = .ok p) :
    n.steps.foldlM d.advance (.folder (if n.fromTop then 0 else 1)) = .ok p ∧
      ∀ d' : Disk, d'.reach n =
        n.steps.foldlM d'.advance (.folder (if n.fromTop then 0 else 1)) := by
  unfold reach at h ⊢
  split at h
  · cases h
  · next writable =>
    split at h
    · cases h
    · next some_ =>
      split at h
      · cases h
      · next short => exact ⟨h, fun d' => by rw [if_neg writable, if_neg some_, if_neg short]⟩

theorem Sound.holds_of_reach (sound : d.Sound) {n : FileName} {p : Spot}
    (h : d.reach n = .ok p) : d.Holds p := by
  refine sound.holds_of_steps ?_ (reach_eq_ok h).1
  show (if n.fromTop then 0 else 1) < d.folders.size
  have first := sound.first
  split <;> omega

theorem findFile_eq_ok_iff {n : FileName} {id : FileId} :
    d.findFile n = .ok id ↔ d.find n = .ok (.file id) := by
  unfold findFile
  constructor
  · intro h
    obtain ⟨entry, found, h⟩ := exists_of_bind_eq_ok h
    cases entry with
    | file id' =>
      cases h
      exact found
    | folder id' => cases h
  · intro found
    rw [found]
    rfl

/-- A file is found at the spot that its name leads to. -/
theorem findFile_eq_ok {n : FileName} {id : FileId} :
    d.findFile n = .ok id ↔
      ∃ p, d.reach n = .ok p ∧ n.asFolder = false ∧ d.entry? p = some (.file id) := by
  rw [findFile_eq_ok_iff]
  constructor
  · intro found
    obtain ⟨p, reached, found⟩ := exists_of_bind_eq_ok found
    refine ⟨p, reached, ?_⟩
    split at found
    · obtain ⟨k, -, found⟩ := exists_of_bind_eq_ok found
      cases found
    · next plain =>
      split at found
      · next entry =>
        cases found
        exact ⟨Bool.eq_false_iff.2 plain, entry⟩
      · cases found
  · rintro ⟨p, reached, plain, entry⟩
    simp only [find, reached, plain, entry, bind, Except.bind, pure, Except.pure,
      Bool.false_eq_true, if_false]

/-! ## More folders and names

What a way met is there still when other names were given; only a way that met nothing may lead
further. -/

/-- A disk with the folders of another one where they were, and with their names, and maybe more of
both. -/
structure KeepsNames (d d' : Disk) : Prop where
  size : d.folders.size ≤ d'.folders.size
  around : ∀ id < d.folders.size, (d'.folder id).around = (d.folder id).around
  entries : ∀ id < d.folders.size, ∀ name e, (d.folder id).entries.get? name = some e →
    (d'.folder id).entries.get? name = some e

namespace KeepsNames

variable {d'' : Disk}

theorem of_folders (same : d'.folders = d.folders) : d.KeepsNames d' := by
  have folder (id : FolderId) : d'.folder id = d.folder id := by
    rw [Disk.folder, same, Disk.folder]
  exact ⟨Nat.le_of_eq (congrArg Array.size same).symm, fun id _ => by rw [folder],
    fun id _ name e held => by rw [folder, held]⟩

theorem refl (d : Disk) : d.KeepsNames d := of_folders rfl

theorem trans (h : d.KeepsNames d') (h' : d'.KeepsNames d'') : d.KeepsNames d'' where
  size := Nat.le_trans h.size h'.size
  around id low := (h'.around id (Nat.lt_of_lt_of_le low h.size)).trans (h.around id low)
  entries id low name e held :=
    h'.entries id (Nat.lt_of_lt_of_le low h.size) name e (h.entries id low name e held)

theorem enter (low : around < d.folders.size) (free : d.entry? (.name around name) = none) :
    d.KeepsNames (d.enter around name e) where
  size := Nat.le_of_eq (Array.size_modify ..).symm
  around id _ := around_enter low id
  entries id _ other e' held := by
    rw [get?_enter low, if_neg]
    · exact held
    · rintro ⟨rfl, rfl⟩
      cases free.symm.trans held

theorem push {folder : Folder} (folders : d'.folders = d.folders.push folder) :
    d.KeepsNames d' := by
  have here (id : FolderId) (low : id < d.folders.size) : d'.folder id = d.folder id := by
    unfold Disk.folder
    rw [folders, Array.getElem?_push, if_neg (Nat.ne_of_lt low)]
  refine ⟨?_, fun id low => by rw [here id low], fun id low name e held => ?_⟩
  · rw [folders, Array.size_push]
    exact Nat.le_succ _
  · rw [here id low, held]

theorem entry? (h : d.KeepsNames d') {p : Spot} (holds : d.Holds p)
    (held : d.entry? p = some e) : d'.entry? p = some e := by
  cases p with
  | folder id => exact held
  | name around name => exact h.entries around holds name e held

theorem reach (h : d.KeepsNames d') (sound : d.Sound) {n : FileName} {p : Spot}
    (reached : d.reach n = .ok p) : d'.reach n = .ok p := by
  have advances {p q : Spot} {s : Step} (holds : d.Holds p) (step : d.advance p s = .ok q) :
      d'.advance p s = .ok q := by
    obtain ⟨k, entry, short, rfl⟩ := advance_eq_ok.1 step
    refine advance_eq_ok.2 ⟨k, h.entry? holds entry, short, ?_⟩
    cases s with
    | up =>
      have low : k < d.folders.size := by
        cases p with
        | folder id =>
          cases entry
          exact holds
        | name around name => exact sound.inner around name k entry
      rw [spotAfter, spotAfter, h.around k low]
    | stay | into => rfl
  have start : d.Holds (.folder (if n.fromTop then 0 else 1)) := by
    have first := sound.first
    show (if n.fromTop then 0 else 1) < d.folders.size
    split <;> omega
  obtain ⟨way, ways⟩ := reach_eq_ok reached
  rw [ways]
  generalize Spot.folder (if n.fromTop then 0 else 1) = q at way start
  generalize n.steps = steps at way
  induction steps generalizing q with
  | nil => exact way
  | cons s steps ih =>
    obtain ⟨q', step, way⟩ := exists_of_bind_eq_ok way
    rw [List.foldlM_cons, advances start step]
    exact ih q' (sound.holds_of_advance start step) way

theorem findFile (h : d.KeepsNames d') (sound : d.Sound) {n : FileName} {id : FileId}
    (found : d.findFile n = .ok id) : d'.findFile n = .ok id := by
  obtain ⟨p, reached, plain, entry⟩ := findFile_eq_ok.1 found
  exact findFile_eq_ok.2
    ⟨p, h.reach sound reached, plain, h.entry? (sound.holds_of_reach reached) entry⟩

end KeepsNames

/-! ## Making -/

theorem get?_freeId (d : Disk) : d.files.get? d.freeId = none := by
  -- The free number is past the numbers of all rows.
  have past (rows : List (Nat × Bytes)) (least k : Nat)
      (above : rows.foldl (fun k row => max k (row.1 + 1)) least ≤ k) :
      least ≤ k ∧ Table.find k rows = none := by
    induction rows generalizing least with
    | nil => exact ⟨above, rfl⟩
    | cons row rows ih =>
      obtain ⟨low, absent⟩ := ih _ above
      have low : max least (row.1 + 1) ≤ k := low
      refine ⟨by omega, ?_⟩
      rw [Table.find, if_neg (by omega), absent]
  exact (past _ 0 d.freeId (Nat.le_refl _)).2

/-- A disk with the locks of another one and all that it holds, and maybe with folders and empty
files more. -/
structure Retains (d d' : Disk) : Prop where
  locks : d'.locks = d.locks
  files : ∀ id, d'.files.get? id = d.files.get? id ∨
    d.files.get? id = none ∧ d'.files.get? id = some []
  names : d.Sound → d'.Sound ∧ d.KeepsNames d'

namespace Retains

variable {d'' : Disk}

theorem refl (d : Disk) : d.Retains d :=
  ⟨rfl, fun _ => .inl rfl, fun sound => ⟨sound, .refl d⟩⟩

theorem trans (h : d.Retains d') (h' : d'.Retains d'') : d.Retains d'' where
  locks := h'.locks.trans h.locks
  files id := by
    rcases h.files id with same | ⟨absent, made⟩
    · rw [← same]
      exact h'.files id
    · rcases h'.files id with same | ⟨absent', -⟩
      · exact .inr ⟨absent, same.trans made⟩
      · cases absent'.symm.trans made
  names sound :=
    have ⟨sound', keeps⟩ := h.names sound
    have ⟨sound'', keeps'⟩ := h'.names sound'
    ⟨sound'', keeps.trans keeps'⟩

theorem bytesAt (h : d.Retains d') (id : FileId) : d'.bytesAt id = d.bytesAt id := by
  unfold Disk.bytesAt
  rcases h.files id with same | ⟨absent, made⟩
  · rw [same]
  · rw [absent, made]
    rfl

end Retains

theorem makeFolder_eq_ok {n : FileName} (h : d.makeFolder n = .ok d') :
    ∃ around name, d.reach n = .ok (.name around name) ∧
      d.entry? (.name around name) = none ∧
      d' = { d.enter around name (.folder d.folders.size) with
        folders := (d.enter around name (.folder d.folders.size)).folders.push ⟨around, ∅⟩ } := by
  obtain ⟨p, reached, h⟩ := exists_of_bind_eq_ok h
  cases p with
  | folder id => cases h
  | name around name =>
    refine ⟨around, name, reached, ?_⟩
    cases taken : d.entry? (.name around name) with
    | some e =>
      simp only [taken, Option.isSome_some, if_true] at h
      cases h
    | none =>
      simp only [taken, Option.isSome_none, Bool.false_eq_true, if_false] at h
      cases h
      exact ⟨rfl, rfl⟩

theorem Sound.makeFolder (sound : d.Sound) {n : FileName} (h : d.makeFolder n = .ok d') :
    d'.Sound := by
  obtain ⟨around, name, reached, -, made⟩ := makeFolder_eq_ok h
  have folders := congrArg Disk.folders made
  have low : around < d.folders.size := sound.holds_of_reach reached
  have enter : (d.enter around name (.folder d.folders.size)).folders.size = d.folders.size :=
    Array.size_modify ..
  have size : d'.folders.size = d.folders.size + 1 := by rw [folders, Array.size_push, enter]
  have here (id : FolderId) : d'.folder id =
      if id = d.folders.size then ⟨around, ∅⟩
      else (d.enter around name (.folder d.folders.size)).folder id := by
    unfold folder
    rw [folders, Array.getElem?_push, enter]
    split <;> rfl
  refine ⟨size ▸ Nat.le_succ_of_le sound.first, fun id within => ?_, fun id other k held => ?_⟩
  · rw [size] at within
    rw [here, size]
    split
    · exact Nat.lt_succ_of_lt low
    · next other =>
      rw [around_enter low]
      have inside : id < d.folders.size := Nat.lt_of_le_of_ne (Nat.le_of_lt_succ within) other
      exact Nat.lt_succ_of_lt (sound.around id inside)
  · rw [here] at held
    rw [size]
    split at held
    · cases held
    · rw [get?_enter low] at held
      split at held
      · cases held
        exact Nat.lt_succ_self _
      · exact Nat.lt_succ_of_lt (sound.inner id other k held)

theorem retains_makeFolder {n : FileName} (h : d.makeFolder n = .ok d') : d.Retains d' := by
  obtain ⟨around, name, reached, free, made⟩ := makeFolder_eq_ok h
  have names (sound : d.Sound) : d.KeepsNames d' := by
    rw [made]
    exact (KeepsNames.enter (sound.holds_of_reach reached) free).trans (.push rfl)
  refine ⟨?_, fun _ => .inl ?_, fun sound => ⟨sound.makeFolder h, names sound⟩⟩
  · rw [made]
    rfl
  · rw [made]
    rfl

/-- Making sure of folders leaves what there was, also where it fails half-way. -/
theorem retains_makeFrom (names : List FileName) (d : Disk) :
    d.Retains (stateAfter (makeFrom names d)) := by
  induction names generalizing d with
  | nil => exact .refl d
  | cons n above ih =>
    -- A folder that cannot be made may be there.
    have settled (d : Disk) (e : DiskError) : d.Retains (stateAfter
        (if d.denotesFolder n then EStateM.Result.ok () d else .error e d)) := by
      split <;> exact .refl d
    have first := ih d
    rw [makeFrom]
    dsimp only
    split
    · next made => exact retains_makeFolder made
    · split
      · next failed =>
        rw [failed] at first
        exact first
      · next d' made =>
        rw [made] at first
        split
        · next made => exact first.trans (retains_makeFolder made)
        · exact first.trans (settled ..)
    · exact settled ..

theorem Sound.enter_file (sound : d.Sound) (low : around < d.folders.size) {id : FileId} :
    (d.enter around name (.file id)).Sound := by
  have size : (d.enter around name (.file id)).folders.size = d.folders.size :=
    Array.size_modify ..
  refine ⟨size ▸ sound.first, fun k within => ?_, fun k other inner held => ?_⟩
  · rw [around_enter low, size]
    exact sound.around k (size ▸ within)
  · rw [get?_enter low] at held
    rw [size]
    split at held
    · cases held
    · exact sound.inner k other inner held

/-- A file that was made is found under its name; a name that is refused leaves the disk as it
was. -/
theorem ends_makeFile (n : FileName) (d : Disk) :
    Ends (makeFile n) d
      (fun id d' => d.Retains d' ∧ (d.Sound → d'.findFile n = .ok id)) (fun _ d' => d' = d) := by
  refine ends_of_forall (fun id d' h => ?_) (fun e d' h => ?_)
  · unfold makeFile at h
    split at h
    · cases h
    · cases h
    · next around name reached =>
      split at h
      · cases h
      · next plain =>
        split at h
        · cases h
        · next entry =>
          cases h
          exact ⟨.refl d, fun _ =>
            findFile_eq_ok.2 ⟨_, reached, Bool.eq_false_iff.2 plain, entry⟩⟩
        · next free =>
          cases h
          -- The file is there before its name: what had a name still has it.
          have empty : d.KeepsNames (d.put d.freeId []) := .of_folders rfl
          have keeps (sound : d.Sound) : d.KeepsNames
              ((d.put d.freeId []).enter around name (.file d.freeId)) :=
            empty.trans (.enter (sound.holds_of_reach reached) free)
          refine ⟨⟨rfl, fun id => ?_, fun sound => ⟨?_, keeps sound⟩⟩, fun sound => ?_⟩
          · rcases eq_or_ne d.freeId id with rfl | other
            · exact .inr ⟨d.get?_freeId, (Table.get?_insert ..).trans (if_pos rfl)⟩
            · exact .inl ((Table.get?_insert ..).trans (if_neg other))
          · exact Sound.enter_file (d := d.put d.freeId [])
              ⟨sound.first, sound.around, sound.inner⟩ (sound.holds_of_reach reached)
          · have low := sound.holds_of_reach reached
            exact findFile_eq_ok.2 ⟨_, (keeps sound).reach sound reached,
              Bool.eq_false_iff.2 plain,
              (get?_enter (d := d.put d.freeId []) low around name).trans (if_pos ⟨rfl, rfl⟩)⟩
  · unfold makeFile at h
    split at h
    · cases h
      rfl
    · cases h
      rfl
    · split at h
      · cases h
        rfl
      · split at h <;> cases h
        rfl

end StudyArchive.Disk
