import StudyArchive.Yaml.Scalar
/-
# Tokens of a YAML text

A text is a row of tokens.  Where blocks begin and end is told by columns in the text and by tokens
of their own in the row.
-/

namespace StudyArchive.Yaml

/-- The least pieces of a text that mean something. -/
inductive Token where
  /-- The version that a document follows. -/
  | version (major minor : Nat)
  /-- What a tag handle stands for. -/
  | tagDirective (handle : String) (stem : Bytes)
  | documentStart
  | documentEnd
  /-- The start of a list whose entries stand in one column. -/
  | blockList
  /-- The start of a mapping whose keys stand in one column. -/
  | blockMapping
  /-- The end of either. -/
  | blockEnd
  | openList
  | closeList
  | openMapping
  | closeMapping
  /-- The dash before an entry. -/
  | entry
  | comma
  /-- What stands before a key, written or not. -/
  | key
  /-- The colon before a value. -/
  | value
  | anchor (name : String)
  | alias (name : String)
  | tag (handle : String) (suffix : Bytes)
  | scalar (text : String) (style : ScalarStyle)
  deriving DecidableEq

end StudyArchive.Yaml
