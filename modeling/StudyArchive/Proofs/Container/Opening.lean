import StudyArchive.Proofs.Container.Recovery
/-
# What opening leaves alone

Opening a file that is started over empties it only after its lock was taken, and opening one that
is gone on with cuts it off only after it was read, replayed and locked.  So an opening that fails
leaves every file as it was, and none touches a file that a writer holds; going on with a file
leaves its valid part, and everything else on the disk (`Container.opening_keeps_data`).  What was
gone on with once has no torn tail any more: to open and close it again changes nothing
(`Container.visit_whole`).
-/

namespace StudyArchive

namespace LogWriter

/-- The bytes that a writer takes get into its own file. -/
theorem get?_push (w : LogWriter) (disk : Disk) (bytes : Bytes) {id : FileId} (other : id ≠ w.id) :
    (w.push disk bytes).2.files.get? id = disk.files.get? id := by
  have writes (d : Disk) (position : Nat) (bytes : Bytes) :
      (d.writeAt w.id position bytes).files.get? id = d.files.get? id :=
    (Table.get?_insert ..).trans (if_neg other.symm)
  unfold push flush emit
  dsimp only
  split_ifs <;> simp only [writes]

/-- A log is started over in a file that no writer holds.  Before, folders and the file may have
been made; no other file changes.  Where this fails, no file changes. -/
theorem ends_create_apart (file : String) (header : Header) (capacity : Nat) (d : Disk) :
    Ends (create file header capacity) d
      (fun w d' => w.id ∉ d.locks ∧
        ∃ d₁, d.Retains d₁ ∧ ∀ id, id ≠ w.id → d'.files.get? id = d₁.files.get? id)
      fun _ d' => d.Retains d' := by
  unfold create
  simp only [ends_bind, ends_adaptExcept, ends_get, ends_set, ends_pure]
  have foldered : d.Retains (stateAfter (Disk.makeFolders (FileName.folder ⟨file⟩) d)) :=
    Disk.retains_makeFrom _ d
  refine ends_of_forall (fun _ d₁ made => ?_) fun _ d₁ made => ?_
  · rw [made] at foldered
    refine (Disk.ends_makeFile _ d₁).mono (fun id d₂ filed => ?_) fun _ d₂ failed => ?_
    · have retains := foldered.trans filed.1
      have locks := retains.locks
      by_cases held : d₂.locks.contains id
      · have refused : Disk.lock id d₂ = .error .locked d₂ := if_pos held
        refine ends_of_forall (fun _ _ eq => by cases refused.symm.trans eq) fun _ _ eq => ?_
        cases refused.symm.trans eq
        exact retains
      · have locked : Disk.lock id d₂ = .ok () { d₂ with locks := id :: d₂.locks } :=
          if_neg held
        refine ends_of_forall (fun _ _ eq => ?_) fun _ _ eq => by cases locked.symm.trans eq
        cases locked.symm.trans eq
        have same (w : LogWriter) (disk : Disk) : (w.push disk header.encode).1.id = w.id := by
          unfold push flush emit
          dsimp only
          split_ifs <;> rfl
        refine ⟨?_, d₂, retains, fun other differs => ?_⟩
        · rw [same, ← locks]
          simpa using held
        · rw [same] at differs
          rw [get?_push _ _ _ differs]
          exact (Table.get?_insert ..).trans (if_neg (Ne.symm differs))
    · rw [failed]
      exact foldered
  · rw [made] at foldered
    exact foldered

end LogWriter

/-- A disk on which a file was cut off at a length and locked, and that is as before otherwise. -/
structure Disk.Continued (d : Disk) (id : FileId) (length : Nat) (d' : Disk) : Prop where
  within : length ≤ (d.bytesAt id).length
  free : id ∉ d.locks
  bytes : d'.bytesAt id = (d.bytesAt id).take length
  others : ∀ other, other ≠ id → d'.files.get? other = d.files.get? other
  folders : d'.folders = d.folders
  locks : d'.locks = id :: d.locks

namespace Container

variable {disk : Disk} {config : StorageConfig} {stamp : Stamp} {c : Container}

/-- Starting a file over leaves every file that a writer holds, and if it fails, every file. -/
theorem retains_of_create (mode : config.mode = .truncate) :
    (∀ e, (openFile disk config stamp).result = .error e →
      disk.Retains (openFile disk config stamp).disk) ∧
    ∀ id ∈ disk.locks, (openFile disk config stamp).disk.bytesAt id = disk.bytesAt id := by
  unfold openFile
  split
  · exact ⟨fun _ _ => .refl disk, fun _ _ => rfl⟩
  · rw [mode]
    simp only [create]
    have ends := LogWriter.ends_create_apart config.path (.ofStamp stamp) config.bufferSize disk
    split
    · next failed =>
      have retains := ends.bad_of_eq failed
      exact ⟨fun _ _ => retains, fun id _ => retains.bytesAt id⟩
    · next w disk' made =>
      obtain ⟨free, d₁, retains, others⟩ := ends.good_of_eq made
      refine ⟨fun _ failed => (by cases failed), fun id held => ?_⟩
      have differs : id ≠ w.id := fun same => free (same ▸ held)
      rw [← retains.bytesAt id, Disk.bytesAt, others id differs, Disk.bytesAt]

/-- Going on with a file that cannot be gone on with changes nothing. -/
theorem disk_of_append_eq_error (mode : config.mode = .append) {e : StorageError}
    (failed : (openFile disk config stamp).result = .error e) :
    (openFile disk config stamp).disk = disk := by
  unfold openFile at failed ⊢
  split at failed
  · rfl
  · rw [mode] at failed ⊢
    simp only [reopen] at failed ⊢
    split at failed
    · rfl
    · split at failed
      · rfl
      · split at failed
        · next refused =>
          exact (LogWriter.ends_openAppend_only ..).bad_of_eq refused
        · cases failed

/-- What going on with a file leads to: the log was read and replayed, what lies beyond its valid
end is gone, and the writer keeps nothing back. -/
theorem append_eq_ok (mode : config.mode = .append)
    (opened : (openFile disk config stamp).result = .ok c) :
    ∃ id replay w, disk.findFile ⟨config.path⟩ = .ok id ∧
      Replay.ofFile disk config.path = .ok replay ∧
      Tree.empty.replay config.path replay.scan.records = .ok c.tree ∧
      disk.Continued id replay.scan.validEnd (openFile disk config stamp).disk ∧
      c.writer = some w ∧ w.id = id ∧ w.pending = [] := by
  unfold openFile at opened ⊢
  split at opened
  · cases opened
  · rw [mode] at opened ⊢
    simp only [reopen] at opened ⊢
    split at opened
    · cases opened
    · next replay read =>
      obtain ⟨id, frames, found, -, cut, within, -⟩ := Logged.exists_of_ofFile read
      split at opened
      · cases opened
      · next tree replayed =>
        split at opened
        · cases opened
        · next w disk' made =>
          cases opened
          obtain ⟨id', found', free, named, changed⟩ :=
            (LogWriter.ends_openAppend_only ..).good_of_eq made
          obtain rfl : id' = id := Except.ok.inj (found'.symm.trans found)
          refine ⟨id', replay, w, found, read, replayed, ⟨within, free, ?_, ?_, ?_, ?_⟩, rfl,
            named ▸ rfl, named ▸ rfl⟩
          · rw [changed]
            split
            · exact Disk.bytesAt_resize within
            · next short =>
              rw [List.take_of_length_le (Nat.le_of_not_lt short)]
              rfl
          · intro other differs
            rw [changed]
            split
            · exact (Table.get?_insert ..).trans (if_neg differs.symm)
            · rfl
          · rw [changed]
            split <;> rfl
          · rw [changed]

/-! ## Opening and closing -/

/-- The disk after a container was opened and closed. -/
def visit (disk : Disk) (config : StorageConfig) (stamp : Stamp) : Except StorageError Disk := do
  let opening := openFile disk config stamp
  let c ← opening.result
  return (close ⟨opening.disk, c⟩).disk

/-- A file that holds whole frames, which can be replayed, is as it was after a visit, and so is the
disk. -/
theorem visit_whole {header : Header} {frames : List LoggedRecord} {tree : Tree} {id : FileId}
    (valid : header.fault? = none)
    (replayed : Tree.empty.replay config.path (Log.placed Header.size frames) = .ok tree)
    (resumable : Resumable disk config id (header.encode ++ Log.joined frames)) (stamp : Stamp) :
    visit disk config stamp = .ok disk := by
  have size : (header.encode ++ Log.joined frames).length =
      Header.size + (Log.joined frames).length := by
    rw [List.length_append, header.length_encode]
  have whole : Resumable disk config id ((header.encode ++ Log.joined frames).take
      (Header.size + (Log.joined frames).length)) := by
    rw [List.take_of_length_le (Nat.le_of_eq size)]
    exact resumable
  obtain ⟨replay, read, -, records, validEnd⟩ :=
    Logged.replay_ofFile valid (Nat.le_add_right ..) whole
  rw [Log.endingBy_all] at records validEnd
  have length : (disk.bytesAt id).length = replay.scan.validEnd := by
    rw [resumable.bytes, size, validEnd]
  obtain ⟨w, disk', made, -⟩ : ∃ w disk',
      LogWriter.openAppend config.path replay.scan.validEnd config.bufferSize disk = .ok w disk' ∧
        _ :=
    (LogWriter.ends_openAppend resumable.found resumable.free (Nat.le_of_eq length.symm)).exists_ok
  obtain ⟨id', found, -, named, changed⟩ := (LogWriter.ends_openAppend_only ..).good_of_eq made
  obtain rfl : id' = id := Except.ok.inj (found.symm.trans resumable.found)
  rw [if_neg (Nat.not_lt_of_le (Nat.le_of_eq length))] at changed
  rw [← records] at replayed
  unfold visit
  rw [openFile_of_append resumable.valid resumable.mode read replayed made, named, changed]
  show Except.ok { disk with locks := (id' :: disk.locks).erase id' } = _
  rw [List.erase_cons_head]

/-- The disk after visits, one after the other. -/
def visits (disk : Disk) (openings : List (StorageConfig × Stamp)) : Except StorageError Disk :=
  openings.foldlM (fun disk next => visit disk next.1 next.2) disk

theorem visits_whole {header : Header} {frames : List LoggedRecord} {file : String} {tree : Tree}
    {id : FileId} {openings : List (StorageConfig × Stamp)} (valid : header.fault? = none)
    (replayed : Tree.empty.replay file (Log.placed Header.size frames) = .ok tree)
    (resumable : ∀ next ∈ openings,
      Resumable disk next.1 id (header.encode ++ Log.joined frames)) :
    visits disk openings = .ok disk := by
  induction openings with
  | nil => rfl
  | cons next rest ih =>
    have here := visit_whole valid (Tree.replay_of_eq_ok replayed next.1.path)
      (resumable next (List.mem_cons_self ..)) next.2
    show visit disk next.1 next.2 >>= (visits · rest) = _
    rw [here]
    exact ih fun other mem => resumable other (List.mem_cons_of_mem _ mem)

/-- An opening that fails leaves every file that there was, and every name and lock.  One that
succeeds or fails leaves the bytes of the files that writers hold, whether it starts over or goes
on. One that goes on with a file leaves it up to the valid end of the log that was read, and nothing
else changes but the lock; and once that lock is given back, opening and closing the file by any of
its names, as often as one likes, changes nothing at all. -/
theorem opening_keeps_data (disk : Disk) (config : StorageConfig) (stamp : Stamp) :
    (∀ e, (openFile disk config stamp).result = .error e →
      disk.Retains (openFile disk config stamp).disk) ∧
    (∀ id ∈ disk.locks, (openFile disk config stamp).disk.bytesAt id = disk.bytesAt id) ∧
    ∀ c, (openFile disk config stamp).result = .ok c → config.mode = .append →
      ∃ id replay, disk.findFile ⟨config.path⟩ = .ok id ∧
        Replay.ofFile disk config.path = .ok replay ∧
        disk.Continued id replay.scan.validEnd (openFile disk config stamp).disk ∧
        ∀ later : List (StorageConfig × Stamp),
          (∀ next ∈ later, next.1.validate = .ok () ∧ next.1.mode = .append ∧
            disk.findFile ⟨next.1.path⟩ = .ok id) →
          visits (close ⟨(openFile disk config stamp).disk, c⟩).disk later =
            .ok { (openFile disk config stamp).disk with locks := disk.locks } := by
  cases mode : config.mode with
  | truncate =>
    exact ⟨(retains_of_create mode).1, (retains_of_create mode).2, fun _ _ other => by cases other⟩
  | append =>
    refine ⟨fun e failed => ?_, fun id held => ?_, fun c opened _ => ?_⟩
    · rw [disk_of_append_eq_error mode failed]
      exact .refl disk
    · cases result : (openFile disk config stamp).result with
      | error e => rw [disk_of_append_eq_error mode result]
      | ok c =>
        obtain ⟨id', _, _, -, -, -, continued, -⟩ := append_eq_ok mode result
        have differs : id ≠ id' := fun same => continued.free (same ▸ held)
        rw [Disk.bytesAt, continued.others id differs, Disk.bytesAt]
    · obtain ⟨id, replay, w, found, read, replayed, continued, isOpen, same, pending⟩ :=
        append_eq_ok mode opened
      refine ⟨id, replay, found, read, continued, fun later proper => ?_⟩
      obtain ⟨id', frames, found', valid, cut, -, records⟩ := Logged.exists_of_ofFile read
      obtain rfl : id' = id := Except.ok.inj (found'.symm.trans found)
      have closed : (close ⟨(openFile disk config stamp).disk, c⟩).disk =
          { (openFile disk config stamp).disk with locks := disk.locks } := by
        unfold close
        rw [isOpen]
        show LogWriter.close w _ = _
        unfold LogWriter.close LogWriter.flush
        rw [if_pos pending]
        show Disk.unlock _ w.id = _
        rw [Disk.unlock, same, continued.locks, List.erase_cons_head]
      have resumable : ∀ next ∈ later, Resumable
          { (openFile disk config stamp).disk with locks := disk.locks } next.1 id'
          (replay.header.encode ++ Log.joined frames) := by
        intro next mem
        obtain ⟨validated, appends, names⟩ := proper next mem
        exact ⟨validated, appends, (Disk.findFile_of_folders continued.folders _).trans names,
          continued.free, continued.bytes.trans cut⟩
      rw [closed]
      exact visits_whole valid (records ▸ replayed) resumable

end Container
end StudyArchive
