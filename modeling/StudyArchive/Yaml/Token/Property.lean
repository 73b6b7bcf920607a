import StudyArchive.Codec.Text
import StudyArchive.Yaml.Token.Basic
/-
# Names, tags and directives

What a text says about its nodes besides their contents: anchors and tags before a node, and
directives before a document.
-/

namespace StudyArchive.Yaml.Token

/-! ## Anchors -/

/-- The name of an anchor or alias, at a cursor after its sign. -/
def name? (c : Cursor) : Option (String × Cursor) :=
  let name := c.rest.takeWhile isNameChar
  let after := c.skip name.length
  let ended :=
    breaksOff after.rest || (after.rest.head?.map "?:,]\x7d%@`".toList.contains).getD false
  if name ≠ [] && ended then some (String.ofList name, after) else none

/-! ## Tags -/

/-- The characters of a tag; commas and square brackets only where nothing else ends it. -/
def isTagChar (enclosed : Bool) (c : Char) : Bool :=
  isNameChar c || ";/?:@&=+$.%!~*'()".toList.contains c || (enclosed && ",[]".toList.contains c)

/-- The bytes of the characters of a tag, a percent sign standing before the digits of one. -/
def tagBytes? : List Char → Option Bytes
  | [] => some []
  | '%' :: high :: low :: rest => do
    let byte ← Bytes.ofDigits? [high, low]
    return byte ++ (← tagBytes? rest)
  | '%' :: _ => none
  | c :: rest => (tagBytes? rest).map (UInt8.ofNat c.toNat :: ·)

/-- The number of bytes that belong to a first byte. -/
def following? (b : UInt8) : Option Nat :=
  if b < 0x80 then some 0
  else if b < 0xc0 then none
  else if b < 0xe0 then some 1
  else if b < 0xf0 then some 2
  else if b < 0xf8 then some 3
  else none

/-- Whether as many bytes follow each first byte as belong to it.  What they spell does not matter,
and need not be a character. -/
def isGrouped : (owed : Nat) → Bytes → Bool
  | 0, [] => true
  | _ + 1, [] => false
  | 0, b :: rest =>
    match following? b with
    | some owed => isGrouped owed rest
    | none => false
  | owed + 1, b :: rest => 0x80 ≤ b && b < 0xc0 && isGrouped owed rest

/-- The bytes of a tag at a cursor, to the first zero among them, unless nothing is written there
and something must be. -/
def tagText? (enclosed needed : Bool) (c : Cursor) : Option (Bytes × Cursor) := do
  let taken := c.rest.takeWhile (isTagChar enclosed)
  let bytes ← tagBytes? taken
  if isGrouped 0 bytes && !(needed && taken.isEmpty) then
    some (bytes.takeWhile (· ≠ 0), c.skip taken.length)
  else none

/-- The handle at a cursor that stands at its first sign: a name between two signs, or what begins
like one. -/
def handle (c : Cursor) : List Char × Cursor :=
  let name := (c.rest.drop 1).takeWhile isNameChar
  let after := c.skip (1 + name.length)
  if after.rest.head? = some '!' then ('!' :: name ++ ['!'], after.skip 1) else ('!' :: name, after)

/-- The tag at a cursor that stands at its first sign: in full between angles, with a handle, or
local.  A lone sign is a tag of its own. -/
def tag? (brackets : Bool) (c : Cursor) : Option (Token × Cursor) := do
  let (token, after) ←
    if (c.rest.drop 1).head? = some '<' then do
      let (bytes, after) ← tagText? true true (c.skip 2)
      unless after.rest.head? = some '>' do none
      pure (tag "" bytes, after.skip 1)
    else do
      let (stem, after) := handle c
      let named := stem.length ≥ 2 && stem.getLast? = some '!'
      let (bytes, after) ← tagText? false named after
      if named then pure (tag (String.ofList stem) bytes, after)
      else
        let suffix := Bytes.ofText (String.ofList stem.tail) ++ bytes
        pure (if suffix = [] then tag "" (Bytes.ofText "!") else tag "!" suffix, after)
  if breaksOff after.rest || (brackets && after.rest.head? = some ',') then return (token, after)
  else none

/-! ## Directives -/

/-- The number at a cursor, of nine digits at most. -/
def number? (c : Cursor) : Option (Nat × Cursor) :=
  let digits := c.rest.takeWhile Char.isDigit
  if digits = [] || 9 < digits.length then none
  else some (digits.foldl (fun n d => n * 10 + (d.toNat - '0'.toNat)) 0, c.skip digits.length)

def version? (c : Cursor) : Option (Token × Cursor) := do
  let (major, after) ← number? c
  unless after.rest.head? = some '.' do none
  let (minor, after) ← number? (after.skip 1)
  return (version major minor, after)

/-- The handle at a cursor and what it stands for. -/
def tagDirective? (c : Cursor) : Option (Token × Cursor) := do
  unless c.rest.head? = some '!' do none
  let (stem, after) := handle c
  unless stem.getLast? = some '!' do none
  unless (after.rest.head?.map isBlank).getD false do none
  let (bytes, after) ← tagText? true true (after.skipWhile isBlank)
  unless breaksOff after.rest do none
  return (tagDirective (String.ofList stem) bytes, after)

/-- The directive at a cursor that stands after its sign, to the end of its line. -/
def directive? (c : Cursor) : Option (Token × Cursor) := do
  let name := c.rest.takeWhile isNameChar
  let after := c.skip name.length
  unless breaksOff after.rest do none
  let start := after.skipWhile isBlank
  let (token, after) ←
    match String.ofList name with
    | "YAML" => version? start
    | "TAG" => tagDirective? start
    | _ => none
  let after := after.skipComment
  if lineOver after.rest then return (token, after.nextLine) else none

end StudyArchive.Yaml.Token
