import StudyArchive.Proofs.Container.Logged
import StudyArchive.Proofs.Disk.Finding
/-
# Recovery

A container that is started over and changed at will has a log from which replay builds its tree
again.  And if the file ends early, at whatever byte after the header, opening it again recovers the
state at the last record that is whole, cuts the rest off, and goes on from there
(`Logged.reopen`).
-/

namespace StudyArchive

/-- A file that can be gone on with: its name is in the configuration, no writer holds it, and these
are its bytes. -/
structure Resumable (disk : Disk) (config : StorageConfig) (id : FileId) (bytes : Bytes) : Prop
    where
  valid : config.validate = .ok ()
  mode : config.mode = .append
  found : disk.findFile ⟨config.path⟩ = .ok id
  free : id ∉ disk.locks
  bytes : disk.bytesAt id = bytes

/-- Going on with a file: its log is read and replayed, and then a writer is opened. -/
theorem Container.openFile_of_append {disk disk' : Disk} {config : StorageConfig} {stamp : Stamp}
    {replay : Replay} {tree : Tree} {w : LogWriter} (valid : config.validate = .ok ())
    (mode : config.mode = .append) (read : Replay.ofFile disk config.path = .ok replay)
    (replayed : Tree.empty.replay config.path replay.scan.records = .ok tree)
    (made : LogWriter.openAppend config.path replay.scan.validEnd config.bufferSize disk =
      .ok w disk') :
    openFile disk config stamp = ⟨.ok ⟨config.path, replay.header, tree, some w, false⟩, disk',
      TornNotice.ofReplay config.path replay⟩ := by
  unfold openFile
  rw [valid]
  simp only [mode]
  unfold reopen
  simp only [read, replayed, made]

namespace Logged

variable {m : Mounted} {w : LogWriter} {header : Header} {frames : List LoggedRecord}

/-! ## Opening

What an opening does with the bytes of a file: it keeps those of the frames that are whole and
replays them. -/

/-- A container that is started over has an empty log. -/
theorem of_create {disk : Disk} {config : StorageConfig} {stamp : Stamp} {c : Container}
    (mode : config.mode = .truncate)
    (opened : (Container.openFile disk config stamp).result = .ok c) :
    ∃ w, Logged ⟨(Container.openFile disk config stamp).disk, c⟩ w c.header [] ∧ w.records = 0 ∧
      c.created = true := by
  unfold Container.openFile at opened ⊢
  split at opened
  · cases opened
  · rw [mode] at opened ⊢
    simp only [Container.create] at opened ⊢
    have ends := LogWriter.ends_create config.path (.ofStamp stamp) config.bufferSize disk
    split at opened
    · cases opened
    · next w disk' made =>
      cases opened
      obtain ⟨-, atEnd, log, records, -⟩ := ends.good_of_eq made
      exact ⟨w, ⟨rfl, atEnd, by simpa using log, rfl, rfl, rfl⟩, records, rfl⟩

/-- The log of a file that holds a header and some first bytes of frames: the frames that are
whole. -/
theorem replay_ofFile {disk : Disk} {config : StorageConfig} {id : FileId}
    {frames : List LoggedRecord} {n : Nat} (valid : header.fault? = none) (long : Header.size ≤ n)
    (resumable : Resumable disk config id ((header.encode ++ Log.joined frames).take n)) :
    ∃ replay, Replay.ofFile disk config.path = .ok replay ∧ replay.header = header ∧
      replay.scan.records = Log.placed Header.size (Log.endingBy n Header.size frames) ∧
      replay.scan.validEnd =
        Header.size + (Log.joined (Log.endingBy n Header.size frames)).length := by
  have bytes : disk.bytesAt id = header.encode ++ (Log.joined frames).take (n - Header.size) := by
    rw [resumable.bytes, List.take_append, header.length_encode,
      List.take_of_length_le (by rw [header.length_encode]; exact long)]
  have found := Disk.findFile_eq_ok_iff.1 resumable.found
  have scanned := Log.scan_take Header.size (n - Header.size) frames
  rw [Nat.add_sub_cancel' long] at scanned
  refine ⟨⟨header, Log.scan Header.size ((Log.joined frames).take (n - Header.size))⟩, ?_, rfl,
    scanned⟩
  unfold Replay.ofFile
  rw [found]
  simp only
  unfold Replay.ofBytes
  rw [bytes, Header.decode_encode_append]
  simp only [valid]
  rw [List.drop_left' header.length_encode]

/-- Opening a file whose log was cut short recovers the frames that are whole, and the tree that
their records lead to; the rest is cut off. -/
theorem reopen {disk : Disk} {config : StorageConfig} {id : FileId} {n : Nat} {tree : Tree}
    (valid : header.fault? = none) (long : Header.size ≤ n)
    (replayed : Tree.empty.replay config.path (Log.placed Header.size frames) = .ok tree)
    (resumable : Resumable disk config id ((header.encode ++ Log.joined frames).take n))
    (stamp : Stamp) :
    ∃ c w, (Container.openFile disk config stamp).result = .ok c ∧
      Logged ⟨(Container.openFile disk config stamp).disk, c⟩ w header
        (Log.endingBy n Header.size frames) ∧
      c.created = false ∧ w.id = id ∧ w.pending = [] ∧
      (Container.openFile disk config stamp).disk.folders = disk.folders ∧
      (Container.openFile disk config stamp).disk.locks = id :: disk.locks := by
  obtain ⟨replay, read, sameHeader, records, validEnd⟩ := replay_ofFile valid long resumable
  obtain ⟨rest, whole⟩ := Log.endingBy_isPrefix n Header.size frames
  have within := Log.length_endingBy_le frames long
  generalize kept_eq : Log.endingBy n Header.size frames = kept at *
  have stream : header.encode ++ Log.joined frames =
      (header.encode ++ Log.joined kept) ++ Log.joined rest := by
    rw [← whole, Log.joined_append, List.append_assoc]
  have size : (header.encode ++ Log.joined kept).length = replay.scan.validEnd := by
    rw [validEnd, List.length_append, header.length_encode]
  have cut : (disk.bytesAt id).take replay.scan.validEnd = header.encode ++ Log.joined kept := by
    rw [resumable.bytes, List.take_take, Nat.min_eq_left (by omega), stream, ← size,
      List.take_left]
  have inside : replay.scan.validEnd ≤ (disk.bytesAt id).length := by
    have taken := congrArg List.length cut
    rw [List.length_take, size] at taken
    omega
  -- The records of the kept frames are the first ones of those that were replayed.
  obtain ⟨t, first, -⟩ : ∃ t,
      Tree.empty.replay config.path (Log.placed Header.size kept) = .ok t ∧
      t.replay config.path (Log.placed (Header.size + (Log.joined kept).length) rest) =
        .ok tree := by
    rw [← whole, Log.placed_append] at replayed
    exact Tree.replay_append_eq_ok.1 replayed
  obtain ⟨w, disk', opened, -, same, atEnd, pending, -, log, folders, locks⟩ :
      ∃ w disk', LogWriter.openAppend config.path replay.scan.validEnd config.bufferSize disk =
        .ok w disk' ∧ _ :=
    (LogWriter.ends_openAppend resumable.found resumable.free inside).exists_ok
  rw [Container.openFile_of_append resumable.valid resumable.mode read (records ▸ first) opened,
    sameHeader]
  exact ⟨_, w, rfl, ⟨rfl, atEnd, log.trans cut, rfl, valid, first⟩, rfl, same, pending, folders,
    locks⟩

/-- Opening a file that holds the whole log gives the live tree. -/
theorem reopen_whole (h : Logged m w header frames) {disk : Disk} {config : StorageConfig}
    {id : FileId} (resumable : Resumable disk config id (w.log m.disk)) (stamp : Stamp) :
    ∃ c w', (Container.openFile disk config stamp).result = .ok c ∧
      Logged ⟨(Container.openFile disk config stamp).disk, c⟩ w' header frames ∧
      c.tree = m.container.tree ∧
      (Container.openFile disk config stamp).disk.bytesAt id = w.log m.disk := by
  have length : (header.encode ++ Log.joined frames).length =
      Header.size + (Log.joined frames).length := by
    rw [List.length_append, header.length_encode]
  have whole : Resumable disk config id ((header.encode ++ Log.joined frames).take
      (Header.size + (Log.joined frames).length)) := by
    rw [List.take_of_length_le (Nat.le_of_eq length), ← h.log]
    exact resumable
  have replayed := Tree.replay_of_eq_ok h.replayed config.path
  obtain ⟨c, w', result, logged, -, same, pending, -, -⟩ :=
    reopen h.valid (Nat.le_add_right ..) replayed whole stamp
  rw [Log.endingBy_all] at logged
  refine ⟨c, w', result, logged, ?_, ?_⟩
  · exact Except.ok.inj ((logged.folded config.path).symm.trans (h.folded config.path))
  · have log := logged.log
    rw [LogWriter.log, pending, List.append_nil, same] at log
    rw [log, h.log]

/-- What reading a file's log found there. -/
theorem exists_of_ofFile {disk : Disk} {file : String} {replay : Replay}
    (read : Replay.ofFile disk file = .ok replay) :
    ∃ id frames, disk.findFile ⟨file⟩ = .ok id ∧ replay.header.fault? = none ∧
      (disk.bytesAt id).take replay.scan.validEnd =
        replay.header.encode ++ Log.joined frames ∧
      replay.scan.validEnd ≤ (disk.bytesAt id).length ∧
      replay.scan.records = Log.placed Header.size frames := by
  unfold Replay.ofFile at read
  split at read
  · cases read
  · cases read
  · next id found =>
    unfold Replay.ofBytes at read
    split at read
    · cases read
    · next header decoded =>
      split at read
      · cases read
      · next valid =>
        cases read
        obtain ⟨rest, bytes⟩ := Header.exists_eq_encode_append decoded
        obtain ⟨frames, tail, split, records, validEnd⟩ := Log.exists_scanned Header.size rest
        have body : (disk.bytesAt id).drop Header.size = rest := by
          rw [bytes, List.drop_left' header.length_encode]
        rw [body]
        have size : (header.encode ++ Log.joined frames).length =
            (Log.scan Header.size rest).validEnd := by
          rw [validEnd, List.length_append, header.length_encode]
        rw [split, ← List.append_assoc] at bytes
        refine ⟨id, frames, Disk.findFile_eq_ok_iff.2 found, valid, ?_, ?_, records⟩
        · rw [bytes, List.take_left' size]
        · rw [bytes, List.length_append, size]
          exact Nat.le_add_right ..

/-- A container that was opened, by starting its file over or by going on with it, is one. -/
theorem of_openFile {disk : Disk} {config : StorageConfig} {stamp : Stamp} {c : Container}
    (opened : (Container.openFile disk config stamp).result = .ok c) :
    ∃ w frames, Logged ⟨(Container.openFile disk config stamp).disk, c⟩ w c.header frames ∧
      (c.created = true → frames = []) := by
  cases mode : config.mode with
  | truncate =>
    obtain ⟨w, logged, -, -⟩ := of_create mode opened
    exact ⟨w, [], logged, fun _ => rfl⟩
  | append =>
    unfold Container.openFile at opened ⊢
    split at opened
    · cases opened
    · rw [mode] at opened ⊢
      simp only [Container.reopen] at opened ⊢
      split at opened
      · cases opened
      · next replay read =>
        obtain ⟨id, frames, found, valid, cut, within, records⟩ := exists_of_ofFile read
        split at opened
        · cases opened
        · next tree replayed =>
          split at opened
          · cases opened
          · next w disk' made =>
            cases opened
            obtain ⟨id', found', free, -⟩ :=
              (LogWriter.ends_openAppend_only ..).good_of_eq made
            obtain rfl : id' = id := Except.ok.inj (found'.symm.trans found)
            obtain ⟨-, -, atEnd, -, -, log, -⟩ :=
              (LogWriter.ends_openAppend found free within).good_of_eq made
            rw [records] at replayed
            refine ⟨w, frames, ⟨rfl, atEnd, log.trans cut, rfl, valid, replayed⟩, ?_⟩
            intro fresh
            cases fresh

end Logged

namespace Container

/-- An open container, however it was opened and whatever was then asked of it. -/
inductive Live : Mounted → Prop
  | opened {disk : Disk} {config : StorageConfig} {stamp : Stamp} {c : Container}
      (h : (openFile disk config stamp).result = .ok c) :
      Live ⟨(openFile disk config stamp).disk, c⟩
  | changed {m : Mounted} {μ : Mutation} (live : Live m) (proper : μ.isProper m.container.tree)
      (fits : μ.overflows m = false) : Live (Mutation.after m μ)

theorem Live.logged {m : Mounted} (live : Live m) :
    ∃ w frames, Logged m w m.container.header frames ∧
      (m.container.created = true → ∀ l ∈ frames, l.IsEncoded) := by
  induction live with
  | opened h =>
    obtain ⟨w, frames, logged, fresh⟩ := Logged.of_openFile h
    refine ⟨w, frames, logged, fun created l mem => ?_⟩
    rw [fresh created] at mem
    cases mem
  | changed _ proper fits ih =>
    obtain ⟨w, frames, logged, encoded⟩ := ih
    obtain ⟨w', new, logged', adds⟩ := logged.after proper fits
    refine ⟨w', frames ++ new, logged'.heading ▸ logged', fun created l mem => ?_⟩
    rw [adds.created] at created
    exact (List.mem_append.1 mem).elim (encoded created l) (adds.encoded l)

/-! ## Replay builds the live tree

The log of a run has the frames of its records, so to replay it is to apply them again. -/

/-- After any changes of a container that was started over, its log is the header and the frames of
as many records as the writer counted.  Folding `Tree.apply` over these records, from the empty tree
on, refuses none of them and gives the live tree; and so does opening any free file that holds the
log. -/
theorem replays_to_live {disk : Disk} {config : StorageConfig} {stamp : Stamp} {c : Container}
    (mode : config.mode = .truncate) (opened : (openFile disk config stamp).result = .ok c)
    {μs : List Mutation}
    (proper : Mutation.areProper ⟨(openFile disk config stamp).disk, c⟩ μs) :
    ∃ m w frames, m = Mutation.afterAll ⟨(openFile disk config stamp).disk, c⟩ μs ∧
      m.container.writer = some w ∧ w.records = frames.length ∧
      w.log m.disk = c.header.encode ++ Log.joined frames ∧
      (∀ l ∈ frames, l.record.encode = .ok l.bytes) ∧
      (∀ file, (frames.map LoggedRecord.record).foldlM (Tree.apply file) Tree.empty =
        .ok m.container.tree) ∧
      ∀ disk' config' id stamp', Resumable disk' config' id (w.log m.disk) →
        ∃ c', (openFile disk' config' stamp').result = .ok c' ∧ c'.tree = m.container.tree := by
  obtain ⟨w, logged, counted, -⟩ := Logged.of_create mode opened
  obtain ⟨w', frames, logged', adds⟩ := logged.run proper
  rw [List.nil_append] at logged'
  refine ⟨_, w', frames, rfl, logged'.isOpen, ?_, logged'.log, adds.encoded, logged'.folded, ?_⟩
  · rw [adds.records, counted, Nat.zero_add]
  · intro disk' config' id stamp' resumable
    obtain ⟨c', -, result, -, tree, -⟩ := logged'.reopen_whole resumable stamp'
    exact ⟨c', result, tree⟩

theorem replays_to_live_of_column : ∃ c, (openFile default {} default).result = .ok c ∧
    ∃ m w frames, m = Mutation.afterAll ⟨(openFile default {} default).disk, c⟩
        [.createDataset (.ofText "x") (.scalar .real) [0] true 4 (.real .zero), .extend 0 1,
          .write 0 "write" ⟨[0], [1]⟩ [.real .nan], .extend 0 0, .markScale 0 "x"] ∧
      m.container.writer = some w ∧ w.records = frames.length ∧
      w.log m.disk = c.header.encode ++ Log.joined frames ∧
      (frames.map LoggedRecord.record).foldlM (Tree.apply "results.edb") Tree.empty =
        .ok m.container.tree := by
  have ready : (openFile default {} default).result.toOption.any (fun c =>
      Mutation.areProper ⟨(openFile default {} default).disk, c⟩
        [.createDataset (.ofText "x") (.scalar .real) [0] true 4 (.real .zero), .extend 0 1,
          .write 0 "write" ⟨[0], [1]⟩ [.real .nan], .extend 0 0, .markScale 0 "x"]) := by
    decide +kernel
  obtain ⟨c, opened, proper⟩ := (Option.any_eq_true ..).1 ready
  have opened := eq_ok_of_toOption opened
  obtain ⟨m, w, frames, run, isOpen, count, log, -, folded, -⟩ :=
    replays_to_live rfl opened proper
  exact ⟨c, opened, m, w, frames, run, isOpen, count, log, folded "results.edb"⟩

/-! ## Recovery after a cut

A scan of the cut log finds the frames that end before the cut, and these are the first ones of
the run. -/

/-- Opening led to a container with the tree of these records, and left a file that holds exactly
their frames after the header. -/
structure Recovered (opening : Opening) (header : Header) (id : FileId)
    (frames : List LoggedRecord) (c : Container) : Prop where
  result : opening.result = .ok c
  tree : (frames.map LoggedRecord.record).foldlM (Tree.apply c.file) Tree.empty = .ok c.tree
  bytes : opening.disk.bytesAt id = header.encode ++ Log.joined frames

/-- Let a file hold the log of an open container up to some byte after the header.  Opening it
recovers the frames that end by there, and no others.  Whatever is asked of that container next,
closing and opening again gives the recovered records followed by the new ones. -/
theorem recovers_whole_frames {m : Mounted} (live : Live m) :
    ∃ w frames, m.container.writer = some w ∧
      w.log m.disk = m.container.header.encode ++ Log.joined frames ∧
      (m.container.created = true → ∀ l ∈ frames, l.record.encode = .ok l.bytes) ∧
      ∀ n disk config id stamp, Header.size ≤ n →
        Resumable disk config id ((w.log m.disk).take n) →
        ∃ c, Recovered (openFile disk config stamp) m.container.header id
            (Log.endingBy n Header.size frames) c ∧
          ∀ μs stamp', Mutation.areProper ⟨(openFile disk config stamp).disk, c⟩ μs →
            ∃ m' more c',
              m' = Mutation.afterAll ⟨(openFile disk config stamp).disk, c⟩ μs ∧
              (∀ l ∈ more, l.record.encode = .ok l.bytes) ∧
              Recovered (openFile (close m').disk config stamp') m.container.header id
                (Log.endingBy n Header.size frames ++ more) c' ∧
              c'.tree = m'.container.tree := by
  obtain ⟨w, frames, logged, encoded⟩ := live.logged
  refine ⟨w, frames, logged.isOpen, logged.log, encoded, ?_⟩
  intro n disk config id stamp long resumable
  have cut := resumable
  rw [logged.log] at cut
  have replayed := Tree.replay_of_eq_ok logged.replayed config.path
  obtain ⟨c, w₁, result, logged₁, -, same, pending, folders, locks⟩ :=
    Logged.reopen logged.valid long replayed cut stamp
  have bytes := logged₁.log
  rw [LogWriter.log, pending, List.append_nil, same] at bytes
  refine ⟨c, ⟨result, logged₁.folded _, bytes⟩, ?_⟩
  intro μs stamp' proper
  obtain ⟨w₂, more, logged₂, adds⟩ := logged₁.run proper
  obtain ⟨closed, folders', locks'⟩ := LogWriter.close_eq logged₂.atEnd
  have id₂ : w₂.id = id := adds.extends_.id.trans same
  generalize Mutation.afterAll _ μs = m' at logged₂ adds closed folders' locks'
  have disk' : (close m').disk = w₂.close m'.disk := by
    unfold close
    rw [logged₂.isOpen]
  have again : Resumable (close m').disk config id (w₂.log m'.disk) := by
    rw [disk']
    refine ⟨resumable.valid, resumable.mode, ?_, ?_, ?_⟩
    · rw [Disk.findFile_of_folders (folders'.trans (adds.extends_.folders.trans folders))]
      exact resumable.found
    · rw [locks', adds.extends_.locks, locks, id₂, List.erase_cons_head]
      exact resumable.free
    · rw [← id₂]
      exact closed
  obtain ⟨c', w₃, result', logged₃, tree, bytes'⟩ := logged₂.reopen_whole again stamp'
  exact ⟨m', more, c', rfl, adds.encoded,
    ⟨result', logged₃.folded _, bytes'.trans logged₂.log⟩, tree⟩

/-- The disk that is left when the writer of a container dies and only the first bytes of its log
got there. -/
def crash (m : Mounted) (n : Nat) : Disk :=
  match m.container.writer with
  | none => m.disk
  | some w => { m.disk.put w.id ((w.log m.disk).take n) with locks := m.disk.locks.erase w.id }

theorem resumable_crash {m : Mounted} {w : LogWriter} (isOpen : m.container.writer = some w)
    (config : StorageConfig) (valid : config.validate = .ok ()) (mode : config.mode = .append)
    (found : m.disk.findFile ⟨config.path⟩ = .ok w.id) (once : w.id ∉ m.disk.locks.erase w.id)
    (n : Nat) : Resumable (crash m n) config w.id ((w.log m.disk).take n) := by
  have left : crash m n =
      { m.disk.put w.id ((w.log m.disk).take n) with locks := m.disk.locks.erase w.id } := by
    unfold crash
    rw [isOpen]
  rw [left]
  exact ⟨valid, mode, (Disk.findFile_of_folders rfl _).trans found, once, Disk.bytesAt_put ..⟩

-- The frame of the group's record begins at byte 128 and is longer than 12 bytes.
theorem recovers_whole_frames_of_torn_group : ∃ m w frames c,
    Live m ∧ m.container.writer = some w ∧
      w.log m.disk = m.container.header.encode ++ Log.joined frames ∧
      Recovered (openFile (crash m 140) { mode := .append } default) m.container.header w.id
        (Log.endingBy 140 Header.size frames) c := by
  have ready : (openFile default {} default).result.toOption.any (fun c =>
      let m : Mounted := ⟨(openFile default {} default).disk, c⟩
      !(Mutation.createGroup (.ofText "x")).overflows m &&
        let m := Mutation.after m (.createGroup (.ofText "x"))
        m.container.writer.any fun w =>
          m.disk.findFile ⟨"results.edb"⟩ = .ok w.id ∧ w.id ∉ m.disk.locks.erase w.id) := by
    decide +kernel
  obtain ⟨c, opened, ready⟩ := (Option.any_eq_true ..).1 ready
  simp only [Bool.and_eq_true, Bool.not_eq_true'] at ready
  obtain ⟨fits, ready⟩ := ready
  have live := Live.changed (.opened (eq_ok_of_toOption opened)) rfl fits
  generalize Mutation.after _ _ = m at ready live
  obtain ⟨w, frames, isOpen, log, -, recovers⟩ := recovers_whole_frames live
  rw [isOpen] at ready
  simp only [Option.any_some, decide_eq_true_eq] at ready
  have resumable := resumable_crash isOpen { mode := .append } rfl rfl ready.1 ready.2 140
  obtain ⟨c, recovered, -⟩ := recovers 140 _ _ _ default (by decide) resumable
  exact ⟨m, w, frames, c, live, isOpen, log, recovered⟩

end Container
end StudyArchive
