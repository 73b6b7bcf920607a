import StudyArchive.Proofs.Disk.Finding
import StudyArchive.Proofs.Evaluation.Fresh
import StudyArchive.Proofs.Container.Abreast
/-
# Sessions

An archive that was started over, written to and closed can be opened again by its name, and it
holds then what it held (`Archive.exists_reopened_closed`).  The writer of an open container holds
the file that the container's name denotes (`Mounted.Holds`), whatever is recorded; so it gives up
the lock of that file, and of no other one, when the container is closed.
-/

namespace StudyArchive

/-! ## Opening a file

A name denotes the file that was made under it as long as folders only gain names. -/

namespace LogWriter

variable {file : String} {capacity : Nat} {w : LogWriter} {d d' : Disk}

/-- A log that is started over is found under its name. -/
theorem findFile_of_create (sound : d.Sound) {header : Header}
    (created : create file header capacity d = .ok w d') : d'.findFile ⟨file⟩ = .ok w.id := by
  have ends : Ends (create file header capacity) d
      (fun w d' => d'.findFile ⟨file⟩ = .ok w.id) fun _ _ => True := by
    unfold create
    simp only [ends_bind, ends_adaptExcept, ends_get, ends_set, ends_pure]
    refine ends_of_forall (fun _ d₁ made => ?_) fun _ _ _ => trivial
    refine ends_of_forall (fun id d₂ filed => ?_) fun _ _ _ => trivial
    refine ends_of_forall (fun _ d₃ locked => ?_) fun _ _ _ => trivial
    have retains := Disk.retains_makeFrom (FileName.around (FileName.folder ⟨file⟩)) d
    rw [show Disk.makeFrom _ d = .ok _ d₁ from made] at retains
    have found := ((Disk.ends_makeFile _ _).good_of_eq filed).2 (retains.names sound).1
    have start : AtEnd ⟨file, id, capacity, [], 0, 0, 0⟩ (d₃.put id []) := by simp [AtEnd]
    have pushed := extends_push start header.encode
    have folders : d₃.folders = d₂.folders := by
      unfold Disk.lock at locked
      split at locked
      · cases locked
      · cases locked
        rfl
    show Disk.findFile (LogWriter.push _ _ _).2 _ = .ok (LogWriter.push _ _ _).1.id
    rw [pushed.id, Disk.findFile_of_folders (pushed.folders.trans folders), found]
  exact ends.good_of_eq created

theorem file_of_openAppend {validEnd : Nat}
    (opened : openAppend file validEnd capacity d = .ok w d') : w.file = file := by
  obtain ⟨id, -, -, rfl, -⟩ := (ends_openAppend_only ..).good_of_eq opened
  rfl

end LogWriter

/-- A container that goes on with a file bears its name. -/
theorem Container.names_of_append {disk : Disk} {config : StorageConfig} {stamp : Stamp}
    {c : Container} (mode : config.mode = .append)
    (opened : (openFile disk config stamp).result = .ok c) :
    Mounted.names ⟨(openFile disk config stamp).disk, c⟩ = (config.path, some config.path) := by
  unfold openFile at opened
  split at opened
  · cases opened
  · rw [mode] at opened
    simp only [reopen] at opened
    split at opened
    · cases opened
    · split at opened
      · cases opened
      · split at opened
        · cases opened
        · next w disk' made =>
          cases opened
          rw [Mounted.names, Option.map_some, LogWriter.file_of_openAppend made]

/-! ## Holding a file

The writer of a container keeps the file of its name open.  Whatever is recorded goes to this
file, so the name denotes it when the archive is closed. -/

/-- An open container whose writer holds the file that its name denotes, and no one else does. -/
structure Mounted.Holds (m : Mounted) (file : String) : Prop where
  name : m.container.file = file
  writer : ∃ w, m.container.writer = some w ∧ w.file = file ∧
    m.disk.findFile ⟨file⟩ = .ok w.id ∧ ∃ locks, m.disk.locks = w.id :: locks ∧ w.id ∉ locks

namespace Mounted.Holds

variable {m m' : Mounted} {file : String}

theorem names (h : m.Holds file) : m.names = (file, some file) := by
  obtain ⟨w, isOpen, named, -⟩ := h.writer
  rw [Mounted.names, h.name, isOpen, Option.map_some, named]

theorem recorded (h : m.Holds file) (recorded : Container.Recorded m m') : m'.Holds file := by
  rcases recorded with rfl | ⟨r, -, took⟩
  · exact h
  · obtain ⟨w, isOpen, named, found, locks, locked, once⟩ := h.writer
    obtain ⟨w₀, w', isOpen', appended, container⟩ := took.appended
    obtain rfl : w₀ = w := Option.some.inj (isOpen'.symm.trans isOpen)
    unfold LogWriter.append at appended
    split at appended
    · cases appended
    · next bytes _ =>
      obtain ⟨named', same, folders, locks'⟩ := w₀.keeps_push m.disk bytes
      simp only [Except.ok.injEq, Prod.mk.injEq] at appended
      obtain ⟨rfl, disk⟩ := appended
      refine ⟨(congrArg Container.file container).trans h.name, _,
        congrArg Container.writer container, named'.trans named, ?_, locks, ?_, ?_⟩
      · rw [← disk, Disk.findFile_of_folders folders, found, same]
      · rw [← disk, locks', locked, same]
      · rwa [same]

/-- A container that was started over holds its file. -/
theorem of_create {disk : Disk} (sound : disk.Sound) {config : StorageConfig} {stamp : Stamp}
    {c : Container} (mode : config.mode = .truncate)
    (opened : (Container.openFile disk config stamp).result = .ok c) :
    Mounted.Holds ⟨(Container.openFile disk config stamp).disk, c⟩ config.path := by
  unfold Container.openFile at opened ⊢
  split at opened
  · cases opened
  · rw [mode] at opened ⊢
    simp only [Container.create] at opened ⊢
    split at opened
    · cases opened
    · next w disk' made =>
      cases opened
      have found := LogWriter.findFile_of_create sound made
      obtain ⟨named, -, -, -, locked⟩ := (LogWriter.ends_create ..).good_of_eq made
      exact ⟨rfl, w, rfl, named, found, locked⟩

/-- What a closed container leaves can be gone on with under its name. -/
theorem resumable_close (h : m.Holds file) {w : LogWriter} {header : Header}
    {frames : List LoggedRecord} (logged : Logged m w header frames) {config : StorageConfig}
    (path : config.path = file) (mode : config.mode = .append)
    (valid : config.validate = .ok ()) :
    Resumable (Container.close m).disk config w.id (w.log m.disk) := by
  obtain ⟨w', isOpen, -, found, locks, locked, once⟩ := h.writer
  obtain rfl : w' = w := Option.some.inj (isOpen.symm.trans logged.isOpen)
  obtain ⟨bytes, folders, locks'⟩ := LogWriter.close_eq logged.atEnd
  have disk : (Container.close m).disk = w'.close m.disk := by
    unfold Container.close
    rw [logged.isOpen]
  rw [disk]
  refine ⟨valid, mode, ?_, ?_, bytes⟩
  · rw [Disk.findFile_of_folders folders, path, found]
  · rw [locks', locked, List.erase_cons_head]
    exact once

end Mounted.Holds

namespace Archive

variable {a b : Archive} {good : Archive → Prop} {file : String}

theorem Passes.holds (way : Passes good a b) (h : a.mounted.Holds file) :
    b.mounted.Holds file := by
  induction way with
  | refl => exact h
  | step _ recorded _ ih => exact ih.recorded recorded

/-- An archive that was started over holds its file. -/
theorem holds_of_openFile {disk : Disk} (sound : disk.Sound) {config : StorageConfig}
    {stamp : Stamp} (mode : config.mode = .truncate)
    (opened : (openFile disk config stamp).result = .ok a) : a.mounted.Holds config.path := by
  obtain ⟨c, b, made, mounted, -, -, -, described⟩ := exists_described_of_openFile mode opened
  exact described.way.holds (mounted ▸ .of_create sound mode made)

/-- An archive that is closed can be opened again by its name.  It remembers no dataset then, and
holds what it held. -/
theorem exists_reopened_closed {base : List LoggedRecord} {P : Tree → Prop}
    (throughout : a.mounted.Throughout base P) (holds : a.mounted.Holds file)
    {config : StorageConfig} (path : config.path = file) (mode : config.mode = .append)
    (valid : config.validate = .ok ()) (stamp : Stamp) :
    ∃ b, (openFile a.close.mounted.disk config stamp).result = .ok b ∧ b.handles = ∅ ∧
      b.mounted.Ready ∧ b.tree = a.tree ∧ b.mounted.names = a.mounted.names := by
  obtain ⟨w, frames, logged, -⟩ := throughout
  have resumable := holds.resumable_close logged path mode valid
  obtain ⟨size, here⟩ : ∃ n, n = (w.log a.mounted.disk).length := ⟨_, rfl⟩
  have whole : a.mounted.Throughout frames (· = a.tree) := by
    refine ⟨w, frames, logged, List.prefix_rfl, fun first past within t replayed => ?_⟩
    obtain rfl := within.eq_of_length_le past.length_le
    exact Except.ok.inj (replayed.symm.trans logged.replayed)
  have long : Header.size + (Log.joined frames).length ≤ size := by
    rw [here, logged.log, List.length_append, Header.length_encode]
  rw [← List.take_of_length_le (Nat.le_of_eq here.symm)] at resumable
  obtain ⟨c, opened, fresh, throughout⟩ := whole.reopen logged.isOpen long resumable stamp
  refine ⟨⟨⟨_, c⟩, ∅, config.chunkBytes⟩, ?_, rfl, throughout.ready, throughout.live, ?_⟩
  · show (openFile (Container.close a.mounted).disk config stamp).result = _
    unfold openFile
    simp [opened, fresh]
  · rw [holds.names, ← path]
    exact Container.names_of_append mode opened

end Archive
end StudyArchive
