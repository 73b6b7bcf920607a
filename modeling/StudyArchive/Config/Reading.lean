import StudyArchive.Config.Study
import StudyArchive.Disk.Basic
import StudyArchive.Yaml.Node
/-
# Reading configurations

A configuration is a mapping; what it leaves out keeps its default, keys that mean nothing are
passed over, and a key that means something may come once only.  A text setting takes any scalar;
numbers and truth values are written without quotes, or as a block of lines tagged as what they are;
a name may also be the tag of an empty scalar.
-/

namespace StudyArchive

namespace Yaml.Content

/-- The tag of a standard type. -/
def standardTag (name : String) : Bytes := Bytes.ofText ("tag:yaml.org,2002:" ++ name)

/-- A text: any scalar. -/
def text? (c : Content) : Option String :=
  match c.value with
  | .scalar s .. => some s
  | _ => none

/-- A scalar that is a value of a standard type: without quotes, or a block that is tagged so. -/
def typed? (c : Content) (type : String) : Option String :=
  match c.value with
  | .scalar s .plain _ => some s
  | .scalar s .literal tag => if tag = some (standardTag type) then some s else none
  | _ => none

/-- The digit that a character is in a base. -/
def digit? (base : Nat) (c : Char) : Option Nat := do
  let d ← Bytes.hexDigit? c
  if d < base then some d else none

/-- The number that digits spell in a base, if it fits into 64 bits. -/
def digits? (base : Nat) (digits : List Char) : Option Nat := do
  unless digits ≠ [] do none
  let n ← digits.foldlM (fun n c => (digit? base c).map (n * base + ·)) 0
  if n < Bytes.span 8 then some n else none

/-- The count that a text spells: decimal digits that do not begin with a needless zero, or digits
after the mark of their base. -/
def countOf? (s : List Char) : Option Nat :=
  let unsigned := match s with
    | '+' :: rest => rest
    | s => s
  match unsigned with
  | '0' :: 'x' :: rest => digits? 16 rest
  | '0' :: 'o' :: rest => digits? 8 rest
  | '0' :: 'b' :: rest => digits? 2 rest
  | '0' :: _ :: _ => none
  | digits => digits? 10 digits

def count? (c : Content) : Option Nat := do countOf? (← c.typed? "int").toList

/-- A truth value. -/
def flag? (c : Content) : Option Bool := do
  let s ← c.typed? "bool"
  if ["true", "True", "TRUE"].contains s then some true
  else if ["false", "False", "FALSE"].contains s then some false
  else none

/-- The spellings of nothing. -/
def nothing : List String := ["", "~", "null", "Null", "NULL"]

/-- The name that a local tag tells, if it is a text. -/
def nameOfTag? (tag : Bytes) : Option String := do
  unless tag.head? = some 0x21 do none
  (Bytes.toText? (if tag.length = 1 then tag else tag.tail)).toOption

/-- A name: a local tag with nothing after it, or the text. -/
def name? (c : Content) : Option String :=
  match c.value with
  | .scalar s style tag =>
    match tag.bind nameOfTag? with
    | some name => if style = .plain && nothing.contains s then some name else none
    | none => some s
  | _ => none

/-- One of several values, by its name. -/
def oneOf? {α : Type} (values : List α) (name : α → String) (c : Content) : Option α := do
  let s ← c.name?
  values.find? (name · = s)

end Yaml.Content

/-- A setting by its key: how a document tells it and how it is put in its place. -/
structure KeyedSetting (α : Type) where
  key : String
  read : Yaml.Content → α → Option α

namespace KeyedSetting

/-- A setting that one reader reads and another function puts in its place. -/
def of {α β : Type} (key : String) (read : Yaml.Content → Option β) (put : β → α → α) :
    KeyedSetting α :=
  ⟨key, fun c v => (read c).map (put · v)⟩

/-- Settings from the members of a mapping; `seen` are the keys that came before. -/
def ofMembers? {α : Type} (settings : List (KeyedSetting α)) (c : Yaml.Content)
    (seen : List String) (v : α) : List (Yaml.Node × Yaml.Node) → Option α
  | [] => some v
  | (key, value) :: rest => do
    let key ← (c.of key).text?
    match settings.find? (·.key = key) with
    | none => ofMembers? settings c seen v rest
    | some setting =>
      if key ∈ seen then none
      else ofMembers? settings c (key :: seen) (← setting.read (c.of value) v) rest

/-- Settings from a mapping, or from nothing. -/
def readAll? {α : Type} (settings : List (KeyedSetting α)) (default : α) (c : Yaml.Content) :
    Option α :=
  match c.value with
  | .mapping members _ => ofMembers? settings c [] default members
  | .scalar "" .plain _ => some default
  | _ => none

end KeyedSetting

/-- The text of a configuration file. -/
def configText (disk : Disk) (file : String) : Except StorageError String :=
  (disk.textAt ⟨file⟩).mapError fun e => .io file (.reading e)

namespace StorageConfig

def settings : List (KeyedSetting StorageConfig) :=
  [.of "path" (·.text?) fun x c => { c with path := x },
    .of "mode" (·.oneOf? FileMode.all FileMode.name) fun x c => { c with mode := x },
    .of "chunk_bytes" (·.count?) fun x c => { c with chunkBytes := x },
    .of "buffer_size" (·.count?) fun x c => { c with bufferSize := x },
    .of "sync_on_flush" (·.flag?) fun x c => { c with syncOnFlush := x },
    .of "tool_version" (·.text?) fun x c => { c with toolVersion := x },
    .of "tool_revision" (·.text?) fun x c => { c with toolRevision := x }]

/-- The configuration that a document tells. -/
def ofContent? (c : Yaml.Content) : Option StorageConfig := KeyedSetting.readAll? settings {} c

/-- The valid configuration that a text tells. -/
def ofYaml (s : String) : Except StorageError StorageConfig := do
  match (Yaml.Content.ofText? s).bind ofContent? with
  | none => throw .serialization
  | some c =>
    c.validate
    return c

end StorageConfig

namespace StudyConfig

def settings : List (KeyedSetting StudyConfig) :=
  [.of "storage" StorageConfig.ofContent? fun x c => { c with storage := x },
    .of "model_selection" (·.oneOf? ModelSelection.every ModelSelection.name)
      fun x c => { c with models := x },
    .of "interface_selection" (·.oneOf? InterfaceSelection.every InterfaceSelection.name)
      fun x c => { c with interfaces := x },
    .of "container_backend" (·.flag?) fun x c => { c with archived := x },
    .of "memory_backend" (·.flag?) fun x c => { c with remembered := x }]

/-- The valid configuration that a text tells. -/
def ofYaml (s : String) : Except StorageError StudyConfig := do
  match (Yaml.Content.ofText? s).bind (KeyedSetting.readAll? settings {}) with
  | none => throw .serialization
  | some c =>
    c.validate
    return c

end StudyConfig
end StudyArchive
