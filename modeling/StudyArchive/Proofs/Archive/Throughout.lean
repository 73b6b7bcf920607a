import StudyArchive.Proofs.Archive.Passage
import StudyArchive.Proofs.Container.Datasets
import StudyArchive.Proofs.Container.Recovery
/-
# Throughout a log

Whoever opens a log that was cut short finds the tree of one of its beginnings.  So what a
recovered archive may be relied on for is what is true of each tree on the way to the live one, from
the empty one on or from the one where some first frames lead (`Mounted.Throughout`).  A record
keeps it if it is true of the tree that the record leads to, and opening a log that was cut at any
byte after those first frames keeps it whatever was lost (`Mounted.Throughout.reopen`).
-/

namespace StudyArchive

/-- An open container whose log begins with some frames, and each of whose trees, record by record
from the one that these lead to up to the live one, is good. -/
def Mounted.Throughout (base : List LoggedRecord) (P : Tree → Prop) (m : Mounted) : Prop :=
  ∃ w frames, Logged m w m.container.header frames ∧ base <+: frames ∧
    ∀ first, base <+: first → first <+: frames → ∀ t,
      Tree.empty.replay m.container.file (Log.placed Header.size first) = .ok t → P t

/-- Frames that end before a cut stay. -/
theorem Log.prefix_endingBy {base frames : List LoggedRecord} (front : base <+: frames) {n p : Nat}
    (within : p + (joined base).length ≤ n) : base <+: endingBy n p frames := by
  induction base generalizing frames p with
  | nil => exact List.nil_prefix
  | cons l base ih =>
    obtain ⟨rest, rfl⟩ := front
    rw [joined_cons, List.length_append] at within
    rw [List.cons_append, endingBy, if_pos (by omega)]
    exact List.cons_prefix_cons.2 ⟨rfl, ih (List.prefix_append ..) (by omega)⟩

namespace Mounted.Throughout

variable {base : List LoggedRecord} {P Q : Tree → Prop} {m m' : Mounted}

theorem live (h : m.Throughout base P) : P m.container.tree := by
  obtain ⟨w, frames, logged, front, good⟩ := h
  exact good frames front List.prefix_rfl _ logged.replayed

theorem ready (h : m.Throughout base P) : m.Ready := by
  obtain ⟨w, frames, logged, -⟩ := h
  exact ⟨logged.sound, w, logged.isOpen⟩

theorem mono (h : m.Throughout base P) (imp : ∀ t, P t → Q t) : m.Throughout base Q := by
  obtain ⟨w, frames, logged, front, good⟩ := h
  exact ⟨w, frames, logged, front,
    fun first past within t replayed => imp t (good first past within t replayed)⟩

/-- From where a log ends, it is enough that the live tree is good. -/
theorem from_here (h : m.Throughout base P) (live : Q m.container.tree) {w : LogWriter}
    (isOpen : m.container.writer = some w) :
    ∃ frames, Header.size + (Log.joined frames).length = (w.log m.disk).length ∧
      m.Throughout frames Q := by
  obtain ⟨w', frames, logged, -⟩ := h
  obtain rfl : w' = w := Option.some.inj (logged.isOpen.symm.trans isOpen)
  refine ⟨frames, ?_, w', frames, logged, List.prefix_rfl, fun first past within t replayed => ?_⟩
  · rw [logged.log, List.length_append, Header.length_encode]
  · obtain rfl := within.eq_of_length_le past.length_le
    cases logged.replayed.symm.trans replayed
    exact live

theorem recorded (h : m.Throughout base P) (recorded : Container.Recorded m m')
    (there : P m'.container.tree) : m'.Throughout base P := by
  rcases recorded with rfl | ⟨r, plain, took⟩
  · exact h
  · obtain ⟨w, frames, logged, front, good⟩ := h
    obtain ⟨w', frame, logged', -⟩ := logged.of_took plain took
    have file : m'.container.file = m.container.file := by
      obtain ⟨_, _, -, -, container⟩ := took.appended
      rw [container]
    refine ⟨w', frames ++ [frame], logged'.heading.symm ▸ logged',
      front.trans (List.prefix_append ..), fun first past within t replayed => ?_⟩
    rcases List.prefix_concat_iff.1 within with rfl | within
    · cases logged'.replayed.symm.trans replayed
      exact there
    · rw [file] at replayed
      exact good first past within t replayed

/-- A file that holds the log up to some byte after the first frames can be opened again, and what
was true throughout the log still is. -/
theorem reopen (h : m.Throughout base P) {w : LogWriter} (isOpen : m.container.writer = some w)
    {n : Nat} (long : Header.size + (Log.joined base).length ≤ n) {disk : Disk}
    {config : StorageConfig} {id : FileId}
    (resumable : Resumable disk config id ((w.log m.disk).take n)) (stamp : Stamp) :
    ∃ c, (Container.openFile disk config stamp).result = .ok c ∧ c.created = false ∧
      Mounted.Throughout base P ⟨(Container.openFile disk config stamp).disk, c⟩ := by
  obtain ⟨w', frames, logged, front, good⟩ := h
  obtain rfl : w' = w := Option.some.inj (logged.isOpen.symm.trans isOpen)
  rw [logged.log] at resumable
  have replayed := Tree.replay_of_eq_ok logged.replayed config.path
  obtain ⟨c, w', result, logged', fresh, -⟩ :=
    Logged.reopen logged.valid (Nat.le_of_add_right_le long) replayed resumable stamp
  refine ⟨c, result, fresh, w', _, logged'.heading.symm ▸ logged', Log.prefix_endingBy front long,
    fun first past within t first_eq => ?_⟩
  exact good first past (within.trans (Log.endingBy_isPrefix ..)) t
    (Tree.replay_of_eq_ok first_eq _)

end Mounted.Throughout

namespace Archive

variable {base : List LoggedRecord} {P : Tree → Prop} {a b : Archive} {good : Archive → Prop}

/-- A step keeps what is true throughout if it is true at each record on its way. -/
theorem Passes.throughout (way : Passes good a b) (h : a.mounted.Throughout base P)
    (imp : ∀ c, good c → P c.tree) : b.mounted.Throughout base P := by
  induction way with
  | refl => exact h
  | step _ recorded there ih => exact ih.recorded recorded (imp _ there)

/-- An archive over a log that was cut short: it remembers no dataset yet, and what was true
throughout the log still is. -/
theorem exists_reopened (h : a.mounted.Throughout base P) {w : LogWriter}
    (isOpen : a.container.writer = some w) {n : Nat}
    (long : Header.size + (Log.joined base).length ≤ n) {disk : Disk} {config : StorageConfig}
    {id : FileId} (resumable : Resumable disk config id ((w.log a.mounted.disk).take n))
    (stamp : Stamp) :
    ∃ b, (openFile disk config stamp).result = .ok b ∧ b.handles = ∅ ∧
      b.mounted.Throughout base P := by
  obtain ⟨c, opened, fresh, throughout⟩ := h.reopen isOpen long resumable stamp
  refine ⟨⟨⟨_, c⟩, ∅, config.chunkBytes⟩, ?_, rfl, throughout⟩
  unfold openFile
  simp [opened, fresh]

end Archive
end StudyArchive
