import StudyArchive.StorageError
/-
# How a container is opened

The file, whether it is started over or gone on with, and the sizes of chunks and of the writer's
buffer.
-/

namespace StudyArchive

/-- Whether a file is started over or gone on with. -/
inductive FileMode where
  | truncate
  | append
  deriving DecidableEq, Repr

namespace FileMode

def name : FileMode → String
  | truncate => "truncate"
  | append => "append"

def all : List FileMode := [truncate, append]

end FileMode

/-- How a container is opened. -/
structure StorageConfig where
  /-- The name of the file. -/
  path : String := "results.edb"
  mode : FileMode := .truncate
  /-- The size that chunks aim at, in bytes. -/
  chunkBytes : Nat := 40000
  /-- The size of the writer's buffer, in bytes. -/
  bufferSize : Nat := 65536
  /-- Whether a flush waits for the disk. -/
  syncOnFlush : Bool := true
  /-- The version of the tool, kept on the root of a new container. -/
  toolVersion : String := "0.1.0"
  toolRevision : String := ""
  deriving DecidableEq, Repr

namespace StorageConfig

instance : Inhabited StorageConfig := ⟨{}⟩

/-- Refuse a configuration without a file or with an empty chunk or buffer. -/
def validate (c : StorageConfig) : Except StorageError Unit :=
  if c.path = "" then .error (.configValue "path" "must not be empty")
  else if c.chunkBytes = 0 then .error (.configValue "chunk_bytes" "must be greater than zero")
  else if c.bufferSize = 0 then .error (.configValue "buffer_size" "must be greater than zero")
  else .ok ()

end StorageConfig
end StudyArchive
