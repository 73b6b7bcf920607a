import StudyArchive.Log.Frame
import StudyArchive.StorageError
/-
# Reading a log

A log is a header and the frames after it.  `Log.scan` takes frames off the bytes as long as whole,
intact ones follow; what is left, if anything, is the torn tail of an interrupted write.  Frames are
at least `Frame.overhead` bytes long, so the scan ends.
-/

namespace StudyArchive

/-- Why the bytes after the last intact frame are no frame. -/
inductive TornTail where
  /-- Fewer bytes than a frame takes. -/
  | short (position remaining : Nat)
  /-- A declared length that is too small or beyond the bytes. -/
  | badLength (position length available : Nat)
  /-- A frame that does not decode. -/
  | corrupted (position : Nat) (fault : CodecFault)
  deriving DecidableEq

def TornTail.message : TornTail → String
  | short position remaining =>
    s!"{remaining} trailing bytes at {position} are shorter than a record frame"
  | badLength position length available =>
    s!"Record at {position} declares {length} bytes, {available} available"
  | corrupted position fault => s!"Corrupted record at {position}: {fault.message}"

/-- A log read up to its torn tail. -/
structure Scan where
  /-- The records, each with the position of its frame. -/
  records : List (Nat × Record)
  /-- The position after the last intact frame. -/
  validEnd : Nat
  /-- Why the scan stopped before the end of the bytes. -/
  torn : Option TornTail
  deriving DecidableEq

namespace Log

/-- What the bytes at a position begin with: an intact frame with its length, or a torn tail. -/
def head (position : Nat) (bytes : Bytes) : Except TornTail (Nat × Record) :=
  if bytes.length < Frame.overhead then .error (.short position bytes.length)
  else
    let length := Bytes.toNat (bytes.take 4)
    if length < Frame.overhead ∨ bytes.length < length then
      .error (.badLength position length bytes.length)
    else
      match Record.decode (bytes.take length) with
      | .ok record => .ok (length, record)
      | .error fault => .error (.corrupted position fault)

theorem overhead_le_of_head {position : Nat} {bytes : Bytes} {n : Nat} {r : Record}
    (h : head position bytes = .ok (n, r)) : Frame.overhead ≤ n ∧ n ≤ bytes.length := by
  unfold head at h
  split at h
  · simp at h
  · simp only at h
    split at h
    · simp at h
    · next bound =>
      split at h
      · simp only [Except.ok.injEq, Prod.mk.injEq] at h
        omega
      · simp at h

/-- The frames from a position on. -/
def scan (position : Nat) (bytes : Bytes) : Scan :=
  if bytes = [] then ⟨[], position, none⟩
  else
    match _eq : head position bytes with
    | .error torn => ⟨[], position, some torn⟩
    | .ok (length, record) =>
      let rest := scan (position + length) (bytes.drop length)
      { rest with records := (position, record) :: rest.records }
termination_by bytes.length
decreasing_by
  have := overhead_le_of_head _eq
  simp only [Frame.overhead] at this
  simp only [List.length_drop]
  omega

end Log

/-- A log file as read: its header and its scan. -/
structure Replay where
  header : Header
  scan : Scan
  deriving DecidableEq

namespace Replay

/-- The log that a file's bytes hold. -/
def ofBytes (file : String) (bytes : Bytes) : Except StorageError Replay :=
  match Header.decode bytes with
  | .error _ => .error (.openFailure file .shortHeader)
  | .ok header =>
    match header.fault? with
    | some fault => .error (.openFailure file (.invalidHeader fault))
    | none => .ok ⟨header, Log.scan Header.size (bytes.drop Header.size)⟩

def ofFile (disk : Disk) (file : String) : Except StorageError Replay :=
  match disk.find ⟨file⟩ with
  | .error e => .error (.openFailure file (.opening e))
  | .ok (.folder _) => .error (.openFailure file (.unreadableHeader .isFolder))
  | .ok (.file id) => ofBytes file (disk.bytesAt id)

end Replay

/-- The notice that a log's torn tail is left out. -/
structure TornNotice where
  file : String
  validRecords : Nat
  reason : TornTail
  deriving DecidableEq

namespace TornNotice

/-- The notice that a log read from a file gives rise to. -/
def ofReplay (file : String) (replay : Replay) : Option TornNotice :=
  replay.scan.torn.map (⟨file, replay.scan.records.length, ·⟩)

def message (n : TornNotice) : String := s!"Discarding torn container tail: {n.reason.message}"

end TornNotice
end StudyArchive
