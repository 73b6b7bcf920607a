import StudyArchive.Log.Frame
import StudyArchive.StorageError
/-
# Writing a log

A writer holds the lock of its file and keeps the bytes of the latest records back until they fill
its buffer.  What the disk holds from the writer's start on, followed by what it keeps back, is what
was appended.
-/

namespace StudyArchive

/-- The writer of a log file. -/
structure LogWriter where
  /-- The name that the file was opened by. -/
  file : String
  id : FileId
  /-- The size of the buffer. -/
  capacity : Nat
  /-- The bytes kept back. -/
  pending : Bytes
  /-- Where the disk goes on with the bytes kept back. -/
  offset : Nat
  /-- The number of bytes of the log, those kept back included. -/
  position : Nat
  /-- The number of records appended. -/
  records : Nat
  deriving DecidableEq

namespace LogWriter

/-- Put bytes on the disk. -/
def emit (w : LogWriter) (disk : Disk) (bytes : Bytes) : LogWriter × Disk :=
  ({ w with offset := w.offset + bytes.length }, disk.writeAt w.id w.offset bytes)

/-- Put the bytes kept back on the disk. -/
def flush (w : LogWriter) (disk : Disk) : LogWriter × Disk :=
  if w.pending = [] then (w, disk)
  else
    let (w, disk) := w.emit disk w.pending
    ({ w with pending := [] }, disk)

/-- Take bytes into the buffer.  Bytes that do not fit push out what is there; bytes that fill a
whole buffer go straight to the disk. -/
def push (w : LogWriter) (disk : Disk) (bytes : Bytes) : LogWriter × Disk :=
  let (w, disk) :=
    if bytes.length > w.capacity - w.pending.length then w.flush disk else (w, disk)
  if bytes.length ≥ w.capacity then w.emit disk bytes
  else ({ w with pending := w.pending ++ bytes }, disk)

/-- A step that opens a writer, and may leave folders or an empty file behind when it fails. -/
abbrev Opening := EStateM StorageError Disk

/-- Start a log over: the lock is taken before the old contents go. -/
def create (file : String) (header : Header) (capacity : Nat) : Opening LogWriter := do
  let name : FileName := ⟨file⟩
  let refuse (cause : FileCause) : StorageError := .createFailure file cause
  (Disk.makeFolders name.folder).adaptExcept (refuse ∘ .folder)
  let id ← (Disk.makeFile name).adaptExcept (refuse ∘ .opening)
  (Disk.lock id).adaptExcept (refuse ∘ .locking)
  let disk := (← get).put id []
  let (w, disk) := LogWriter.push ⟨file, id, capacity, [], 0, 0, 0⟩ disk header.encode
  set disk
  return { w with position := Header.size }

/-- Go on with a log after its valid end; what lies beyond is cut off. -/
def openAppend (file : String) (validEnd capacity : Nat) : Opening LogWriter := do
  let refuse (cause : FileCause) : StorageError := .openFailure file cause
  let id ← liftExcept (((← get).findFile ⟨file⟩).mapError (refuse ∘ .opening))
  (Disk.lock id).adaptExcept (refuse ∘ .locking)
  if ((← get).bytesAt id).length > validEnd then
    modify (·.resize id validEnd)
  return ⟨file, id, capacity, [], validEnd, validEnd, 0⟩

def append (w : LogWriter) (disk : Disk) (r : Record) : Except StorageError (LogWriter × Disk) :=
  match r.encode with
  | .error fault => .error (.io w.file (.unencodable r.path fault))
  | .ok bytes =>
    let (w, disk) := w.push disk bytes
    .ok ({ w with position := w.position + bytes.length, records := w.records + 1 }, disk)

/-- Give the file up: flush it and release its lock. -/
def close (w : LogWriter) (disk : Disk) : Disk :=
  let (w, disk) := w.flush disk
  disk.unlock w.id

end LogWriter
end StudyArchive
