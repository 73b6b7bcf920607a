import StudyArchive.Proofs.Container.Mutation
import StudyArchive.Proofs.Log.Heading
/-
# Trees and their logs

`Logged` is the invariant of an open container: its log is a header and frames, and the records of
the frames lead from the empty tree to the live one.  A change keeps it and adds at most a frame
(`Logged.after`), so a run of changes adds the frames of its records (`Logged.run`).
-/

namespace StudyArchive

/-! ## Replay -/

namespace Tree

variable {file : String}

theorem replay_append (t : Tree) (first second : List (Nat × Record)) :
    t.replay file (first ++ second) =
      t.replay file first >>= fun t' => t'.replay file second := by
  induction first generalizing t with
  | nil => rfl
  | cons entry first ih =>
    obtain ⟨position, record⟩ := entry
    rw [List.cons_append, replay, replay]
    split
    · exact ih _
    · rfl

/-- What replays, replays part by part. -/
theorem replay_append_eq_ok {t t'' : Tree} {first second : List (Nat × Record)} :
    t.replay file (first ++ second) = .ok t'' ↔
      ∃ t', t.replay file first = .ok t' ∧ t'.replay file second = .ok t'' := by
  rw [replay_append]
  constructor
  · exact exists_of_bind_eq_ok
  · rintro ⟨t', front, back⟩
    rw [front]
    exact back

/-- Replay that succeeds is the fold of `Tree.apply`; the positions are for its refusals. -/
theorem replay_eq_ok_iff {t t' : Tree} {entries : List (Nat × Record)} :
    t.replay file entries = .ok t' ↔
      (entries.map (·.2)).foldlM (Tree.apply file) t = .ok t' := by
  induction entries generalizing t with
  | nil => rfl
  | cons entry entries ih =>
    obtain ⟨position, record⟩ := entry
    rw [replay, List.map_cons, List.foldlM_cons]
    cases t.apply file record with
    | error e => constructor <;> intro h <;> cases h
    | ok next => exact ih

theorem replay_of_eq_ok {t t' : Tree} {entries : List (Nat × Record)}
    (h : t.replay file entries = .ok t') (other : String) :
    t.replay other entries = .ok t' := by
  induction entries generalizing t with
  | nil => exact h
  | cons entry entries ih =>
    obtain ⟨position, record⟩ := entry
    rw [replay] at h ⊢
    split at h
    · next applied =>
      rw [apply_of_eq_ok applied other]
      exact ih h
    · cases h

theorem Sound.replay {t t' : Tree} (sound : t.Sound) {entries : List (Nat × Record)}
    (h : t.replay file entries = .ok t') : t'.Sound := by
  induction entries generalizing t with
  | nil =>
    cases h
    exact sound
  | cons entry entries ih =>
    obtain ⟨position, record⟩ := entry
    rw [Tree.replay] at h
    split at h
    · next applied => exact ih (sound.apply applied) h
    · cases h

end Tree

/-! ## The invariant

The frames of the log, the records that they hold and the live tree, kept together. -/

/-- The frame of a record as it was appended, not only one that decodes to it. -/
def LoggedRecord.IsEncoded (l : LoggedRecord) : Prop := l.record.encode = .ok l.bytes

/-- An open container whose log is a header and frames, and whose tree is what they lead to. -/
structure Logged (m : Mounted) (w : LogWriter) (header : Header) (frames : List LoggedRecord) :
    Prop where
  isOpen : m.container.writer = some w
  atEnd : w.AtEnd m.disk
  log : w.log m.disk = header.encode ++ Log.joined frames
  heading : m.container.header = header
  valid : header.fault? = none
  replayed : Tree.empty.replay m.container.file (Log.placed Header.size frames) =
    .ok m.container.tree

namespace Logged

variable {m : Mounted} {w : LogWriter} {header : Header} {frames : List LoggedRecord}

theorem sound (h : Logged m w header frames) : m.container.tree.Sound :=
  Tree.sound_empty.replay h.replayed

/-- Folding the records gives the live tree, in whatever file the log lies. -/
theorem folded (h : Logged m w header frames) (file : String) :
    (frames.map LoggedRecord.record).foldlM (Tree.apply file) Tree.empty =
      .ok m.container.tree := by
  rw [← Log.map_placed Header.size]
  exact Tree.replay_eq_ok_iff.1 (Tree.replay_of_eq_ok h.replayed file)

/-- What further frames do to a container and its log. -/
structure Adds (m : Mounted) (w : LogWriter) (m' : Mounted) (w' : LogWriter)
    (frames : List LoggedRecord) : Prop where
  extends_ : w.Extends m.disk w' m'.disk (Log.joined frames)
  records : w'.records = w.records + frames.length
  encoded : ∀ l ∈ frames, l.IsEncoded
  created : m'.container.created = m.container.created

theorem Adds.refl (atEnd : w.AtEnd m.disk) : Adds m w m w [] where
  extends_ := .refl atEnd
  records := rfl
  encoded := by simp
  created := rfl

theorem Adds.trans {m' m'' : Mounted} {w' w'' : LogWriter} {first second : List LoggedRecord}
    (h : Adds m w m' w' first) (h' : Adds m' w' m'' w'' second) :
    Adds m w m'' w'' (first ++ second) where
  extends_ := by
    rw [Log.joined_append]
    exact h.extends_.trans h'.extends_
  records := by rw [h'.records, h.records, List.length_append, Nat.add_assoc]
  encoded l mem := (List.mem_append.1 mem).elim (h.encoded l) (h'.encoded l)
  created := h'.created.trans h.created

/-- A record taken by tree and log is a frame more. -/
theorem of_took (h : Logged m w header frames) {r : Record} (plain : r.isPlain) {m' : Mounted}
    (took : Container.Took m r m') :
    ∃ w' frame, Logged m' w' header (frames ++ [frame]) ∧ Adds m w m' w' [frame] := by
  obtain ⟨applied, v, w', isOpen, appended, container⟩ := took
  rw [h.isOpen] at isOpen
  cases isOpen
  obtain ⟨bytes, encoded, more, counted⟩ := LogWriter.extends_append h.atEnd appended
  let frame : LoggedRecord := .ofRecord r bytes plain encoded
  have single : Log.joined [frame] = bytes := List.append_nil bytes
  have open' : m'.container.writer = some w' := by rw [container]
  have file' : m'.container.file = m.container.file := by rw [container]
  have heading' : m'.container.header = m.container.header := by rw [container]
  have created' : m'.container.created = m.container.created := by rw [container]
  refine ⟨w', frame, ⟨open', more.atEnd, ?_, heading'.trans h.heading, h.valid, ?_⟩, ?_,
    counted, ?_, created'⟩
  · rw [more.log, h.log, Log.joined_append, single, List.append_assoc]
  · rw [file', Log.placed_append, Tree.replay_append_eq_ok]
    refine ⟨m.container.tree, h.replayed, ?_⟩
    rw [Log.placed, Log.placed, Tree.replay]
    have record : frame.record = r := rfl
    rw [record, applied]
    rfl
  · rw [single]
    exact more
  · intro l mem
    rw [List.mem_singleton.1 mem]
    exact encoded

/-! ## Changes

A change is refused without a trace, or tree and log take its record. -/

/-- A change keeps the invariant; its record, if it took one, is the new end of the log. -/
theorem after (h : Logged m w header frames) {μ : Mutation} (proper : μ.isProper m.container.tree)
    (fits : μ.overflows m = false) :
    ∃ w' new, Logged (Mutation.after m μ) w' header (frames ++ new) ∧
      Adds m w (Mutation.after m μ) w' new := by
  have nothing : ∃ w' new, Logged m w' header (frames ++ new) ∧ Adds m w m w' new :=
    ⟨w, [], by rwa [List.append_nil], .refl h.atEnd⟩
  have ends := Mutation.ends_run h.sound h.isOpen proper
  unfold Mutation.after stateAfter
  split
  · next ran =>
    rcases ends.good_of_eq ran with rfl | ⟨r, plain, took⟩
    · exact nothing
    · obtain ⟨w', frame, logged, adds⟩ := h.of_took plain took
      exact ⟨w', [frame], logged, adds⟩
  · next e m' ran =>
    rcases ends.bad_of_eq ran with rfl | unencodable
    · exact nothing
    · have exceeds : μ.overflows m = true := by
        unfold Mutation.overflows
        rw [ran]
        exact unencodable
      rw [fits] at exceeds
      cases exceeds

theorem run (h : Logged m w header frames) {μs : List Mutation} (proper : Mutation.areProper m μs) :
    ∃ w' new, Logged (Mutation.afterAll m μs) w' header (frames ++ new) ∧
      Adds m w (Mutation.afterAll m μs) w' new := by
  induction μs generalizing m w frames with
  | nil => exact ⟨w, [], by rwa [List.append_nil], .refl h.atEnd⟩
  | cons μ μs ih =>
    simp only [Mutation.areProper, Bool.and_eq_true, Bool.not_eq_true'] at proper
    obtain ⟨⟨proper, fits⟩, rest⟩ := proper
    obtain ⟨w', first, logged, adds⟩ := h.after proper fits
    obtain ⟨w'', second, logged', adds'⟩ := ih logged rest
    exact ⟨w'', first ++ second, by rwa [← List.append_assoc], adds.trans adds'⟩

end Logged
end StudyArchive
