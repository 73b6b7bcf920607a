import StudyArchive.Archive.Write
import StudyArchive.Proofs.Container.Mutation
/-
# Record by record

A step of an archive is many records, and whoever opens the log may find it cut after any of them.
`Archive.Passes` says what is true of the archive at each record on the way of a step, not only at
the step's end.
-/

namespace StudyArchive.Archive

variable {a b c : Archive} {good good' : Archive → Prop}

theorem ends_onContainer {α : Type} {act : Container.Action α} {good : α → Archive → Prop}
    {bad : StorageError → Archive → Prop} :
    Ends (onContainer act) a good bad ↔
      Ends act a.mounted (fun v m => good v { a with mounted := m })
        (fun e m => bad e { a with mounted := m }) := by
  constructor
  · intro h
    refine ends_of_forall (fun v m ran => h.good_of_eq ?_) (fun e m ran => h.bad_of_eq ?_) <;>
      unfold onContainer <;> rw [ran]
  · intro h
    refine ends_of_forall (fun v a' ran => ?_) (fun e a' ran => ?_) <;> unfold onContainer at ran
    · split at ran
      · next eq =>
        cases ran
        exact h.good_of_eq eq
      · cases ran
    · split at ran
      · cases ran
      · next eq =>
        cases ran
        exact h.bad_of_eq eq

section
variable (kept : ∀ a name value, good a →
  Ends (setAttribute .root name value) a (fun _ => good) (fun _ _ => True))

include kept

/-- What the attributes of the root leave as it is, its description leaves as it is. -/
theorem ends_describeRoot (here : good a) (config : StorageConfig) (header : Header)
    (stamp : Stamp) :
    Ends (describeRoot config header stamp) a (fun _ => good) (fun _ _ => True) := by
  unfold describeRoot
  simp only [ends_bind]
  refine (kept _ _ _ here).mono (fun _ a₁ h₁ => ?_) fun _ _ _ => trivial
  refine (kept _ _ _ h₁).mono (fun _ a₂ h₂ => ?_) fun _ _ _ => trivial
  refine (kept _ _ _ h₂).mono (fun _ a₃ h₃ => ?_) fun _ _ _ => trivial
  refine (kept _ _ _ h₃).mono (fun _ a₄ h₄ => ?_) fun _ _ _ => trivial
  exact kept _ _ _ h₄

/-- So is an archive that was opened as good as one over the opened container that remembers
nothing. -/
theorem good_of_openFile {disk : Disk} {config : StorageConfig} {stamp : Stamp}
    (opened : (openFile disk config stamp).result = .ok a)
    (fresh : ∀ c, (Container.openFile disk config stamp).result = .ok c →
      good ⟨⟨(Container.openFile disk config stamp).disk, c⟩, ∅, config.chunkBytes⟩) : good a := by
  unfold openFile at opened
  simp only at opened
  split at opened
  · cases opened
  · next c made =>
    split at opened
    · split at opened
      · next described =>
        cases opened
        exact (ends_describeRoot kept (fresh c made) config c.header stamp).good_of_eq described
      · cases opened
    · cases opened
      exact fresh c made

end

/-- A way from one archive to another on which at most one record is taken at a time, and every
archive that is reached is good. -/
inductive Passes (good : Archive → Prop) (a : Archive) : Archive → Prop
  | refl : Passes good a a
  | step {b c : Archive} (way : Passes good a b)
      (recorded : Container.Recorded b.mounted c.mounted) (there : good c) : Passes good a c

namespace Passes

theorem single (recorded : Container.Recorded a.mounted b.mounted) (there : good b) :
    Passes good a b :=
  .step .refl recorded there

theorem trans (h : Passes good a b) (h' : Passes good b c) : Passes good a c := by
  induction h' with
  | refl => exact h
  | step _ recorded there ih => exact .step ih recorded there

theorem mono (h : Passes good a b) (imp : ∀ c, good c → good' c) : Passes good' a b := by
  induction h with
  | refl => exact .refl
  | step _ recorded there ih => exact .step ih recorded (imp _ there)

/-- The end of the way is good if its beginning is. -/
theorem last (h : Passes good a b) (first : good a) : good b := by
  cases h with
  | refl => exact first
  | step _ _ there => exact there

end Passes
end StudyArchive.Archive
