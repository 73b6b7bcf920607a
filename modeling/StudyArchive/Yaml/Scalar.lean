import StudyArchive.Codec.Hex
import StudyArchive.Yaml.Cursor
/-
# Scalars of YAML

A scalar is plain, in quotes, or a block of lines.  A single line end inside the first two counts as
a space, of several one is dropped; blanks around line ends are no part of the text.  A block keeps
its line ends, or folds them between lines that do not begin with a blank.
-/

namespace StudyArchive.Yaml

/-- How a scalar is written. -/
inductive ScalarStyle where
  | plain
  | quoted
  /-- A block that keeps its line ends. -/
  | literal
  | folded
  deriving DecidableEq

/-! ## Gaps

A gap is the blanks and line ends between two words of a scalar, and is folded when the next word
comes. -/

/-- The blanks and line ends between two pieces of a scalar. -/
inductive Gap where
  /-- Blanks on one line, last first. -/
  | blanks (l : List Char)
  /-- Line ends: the first, none if an escape took it away, and the others, last first. -/
  | ends (first : Option Char) (more : List Char)

namespace Gap

/-- No gap. -/
def none : Gap := blanks []

/-- The text that a gap stands for, last character first. -/
def text : Gap → List Char
  | blanks l => l
  | ends (some '\n') [] => [' ']
  | ends (some '\n') more => more
  | ends first more => more ++ first.toList

/-- A gap with one more blank. -/
def blank (c : Char) : Gap → Gap
  | blanks l => blanks (c :: l)
  | ends first more => ends first more

/-- A gap with one more line end. -/
def lineEnd (c : Char) : Gap → Gap
  | blanks _ => ends (some (breakText c)) []
  | ends first more => ends first (breakText c :: more)

/-- Whether a gap holds anything. -/
def started : Gap → Bool
  | blanks l => !l.isEmpty
  | ends .. => true

/-- Whether a gap holds a line end. -/
def ended : Gap → Bool
  | blanks _ => false
  | ends .. => true

end Gap

/-! ## Plain scalars -/

/-- Whether a text begins with a plain scalar. -/
def startsPlain (brackets : Bool) : List Char → Bool
  | [] => false
  | '-' :: rest => !breaksOff rest
  | c :: rest =>
    if c = '?' || c = ':' then !brackets && !breaksOff rest
    else !(isBlank c || isBreak c || isBracketMark c || "#&*!|>'\"%@`".toList.contains c)

/-- Whether the text of a plain scalar stops here. -/
def stopsPlain (brackets : Bool) : List Char → Bool
  | ':' :: rest => breaksOff rest
  | c :: _ => brackets && isBracketMark c
  | [] => true

/-- Whether a colon stands where none may: before a bracket mark, in brackets. -/
def strayColon (brackets : Bool) : List Char → Bool
  | ':' :: c :: _ => brackets && (c = '?' || isBracketMark c)
  | _ => false

/-- The rest of a plain scalar, its text with the last character first, and whether a line ended
after it.  Its later lines begin in the column `least` or further right. -/
def plainFrom (brackets : Bool) (least : Nat) : (fuel : Nat) → Gap → (text : List Char) → Cursor →
    Option (List Char × Bool × Cursor)
  | 0, _, _, _ => none
  | fuel + 1, gap, text, c =>
    let done := some (text, gap.ended, c)
    match c.rest with
    | [] => done
    | d :: _ =>
      if isBreak d then plainFrom brackets least fuel (gap.lineEnd d) text c.nextLine
      else if isBlank d then
        if gap.ended && d = '\t' && c.column < least then none
        else plainFrom brackets least fuel (gap.blank d) text (c.skip 1)
      else if c.atMarker || (gap.started && d = '#') ||
          (gap.ended && !brackets && c.column < least) then done
      else if strayColon brackets c.rest then none
      else if stopsPlain brackets c.rest then done
      else plainFrom brackets least fuel .none (d :: (gap.text ++ text)) (c.skip 1)

/-- The plain scalar at a cursor, and whether a line ended after it. -/
def plain? (brackets : Bool) (least : Nat) (c : Cursor) : Option (String × Bool × Cursor) := do
  let (text, ended, after) ← plainFrom brackets least (c.rest.length + 1) .none [] c
  return (String.ofList text.reverse, ended, after)

/-! ## Scalars in quotes -/

/-- The character of a one-letter escape. -/
def escape? (c : Char) : Option Char :=
  match c with
  | '0' => some '\x00'
  | 'a' => some '\x07'
  | 'b' => some '\x08'
  | 't' | '\t' => some '\t'
  | 'n' => some '\n'
  | 'v' => some '\x0b'
  | 'f' => some '\x0c'
  | 'r' => some '\r'
  | 'e' => some '\x1b'
  | ' ' | '"' | '/' | '\\' => some c
  | 'N' => some '\u0085'
  | '_' => some '\u00a0'
  | 'L' => some '\u2028'
  | 'P' => some '\u2029'
  | _ => none

/-- The number of digits of a numeric escape. -/
def escapeDigits? : Char → Option Nat
  | 'x' => some 2
  | 'u' => some 4
  | 'U' => some 8
  | _ => none

/-- The number that hexadecimal digits spell. -/
def hexValue? (digits : List Char) : Option Nat :=
  digits.foldlM (fun n c => (Bytes.hexDigit? c).map (n * 16 + ·)) 0

/-- The character of a code point. -/
def codePoint? (n : Nat) : Option Char := if n.isValidChar then some (Char.ofNat n) else none

/-- The character that an escape stands for, given what follows its backslash, and how many
characters tell it. -/
def escaped? : List Char → Option (Char × Nat)
  | [] => none
  | e :: rest =>
    match escapeDigits? e with
    | none => (escape? e).map (·, 1)
    | some n => do
      unless (rest.take n).length = n do none
      return (← codePoint? (← hexValue? (rest.take n)), n + 1)

/-- The rest of a scalar in quotes, its text with the last character first.  In single quotes two
of them stand for one; in double quotes there are escapes, also of a line end. -/
def quotedFrom (quote : Char) : (fuel : Nat) → Gap → (text : List Char) → Cursor →
    Option (List Char × Cursor)
  | 0, _, _, _ => none
  | fuel + 1, gap, text, c =>
    match c.rest with
    | [] => none
    | d :: rest =>
      if c.atMarker then none
      else if isBreak d then quotedFrom quote fuel (gap.lineEnd d) text c.nextLine
      else if isBlank d then quotedFrom quote fuel (gap.blank d) text (c.skip 1)
      else
        let text := gap.text ++ text
        if d = quote then
          if quote = '\'' && rest.head? = some '\'' then
            quotedFrom quote fuel .none ('\'' :: text) (c.skip 2)
          else some (text, c.skip 1)
        else if quote = '\'' || d ≠ '\\' then quotedFrom quote fuel .none (d :: text) (c.skip 1)
        else if rest ≠ [] && lineOver rest then
          quotedFrom quote fuel (.ends none []) text (c.skip 1).nextLine
        else do
          let (e, taken) ← escaped? rest
          quotedFrom quote fuel .none (e :: text) (c.skip (1 + taken))

/-- The scalar in quotes at a cursor. -/
def quoted? (c : Cursor) : Option (String × Cursor) := do
  let quote ← c.rest.head?
  let (text, after) ← quotedFrom quote (c.rest.length + 1) .none [] (c.skip 1)
  return (String.ofList text.reverse, after)

/-! ## Blocks of lines

The head of a block says how its line ends are kept and, perhaps, how far it is indented. -/

/-- What happens to the line ends at the end of a block. -/
inductive Chomping where
  | strip
  | clip
  | keep
  deriving DecidableEq

/-- The head of a block of lines: how its end is treated, and by how much it is indented, if that is
told. -/
structure BlockHead where
  chomping : Chomping := .clip
  indent : Option Nat := none

namespace BlockHead

def chomping? : Char → Option Chomping
  | '+' => some .keep
  | '-' => some .strip
  | _ => none

/-- The head with the mark that a character is. -/
def mark? (head : BlockHead) (c : Char) : Option BlockHead :=
  match chomping? c with
  | some chomping => some { head with chomping }
  | none =>
    if '1' ≤ c && c ≤ '9' then some { head with indent := some (c.toNat - '0'.toNat) } else none

/-- The head of a block at a cursor that stands after the block's sign: a mark for the end and one
for the indentation, in either order. -/
def read? (c : Cursor) : Option (BlockHead × Cursor) := do
  let marks := c.rest.takeWhile fun d => (chomping? d).isSome || d.isDigit
  let head ← match marks with
    | [] => some {}
    | [d] => mark? {} d
    | [d, e] =>
      if (chomping? d).isSome = (chomping? e).isSome then none else (mark? {} d).bind (mark? · e)
    | _ => none
  let after := (c.skip marks.length).skipComment
  if lineOver after.rest then return (head, after.nextLine) else none

end BlockHead

/-- Past indentation and empty lines before a line of a block; the line ends passed over, last
first, and the widest indentation.  Without a known indentation every space belongs to it. -/
def blockGap (indent : Option Nat) : (fuel widest : Nat) → (ends : List Char) → Cursor →
    Option (List Char × Nat × Cursor)
  | 0, _, _, _ => none
  | fuel + 1, widest, ends, c =>
    let spaces := (c.rest.takeWhile (· = ' ')).length
    let c := c.skip (match indent with
      | none => spaces
      | some n => min spaces (n - c.column))
    let widest := max widest c.column
    match c.rest with
    | [] => some (ends, widest, c)
    | d :: _ =>
      if d = '\t' && indent.all (c.column < ·) then none
      else if isBreak d then blockGap indent fuel widest (breakText d :: ends) c.nextLine
      else some (ends, widest, c)

/-- The line end at a cursor, as text. -/
def endText (c : Cursor) : List Char :=
  match c.rest with
  | d :: _ => if isBreak d then [breakText d] else []
  | [] => []

/-- The lines of a block: its text, the line end after its last line, and the line ends after that,
all with the last character first.  `broken` is the line end before the cursor's line, `ends` those
after it, and `blank` says whether the line before began with a blank. -/
def blockLines (folded : Bool) (indent : Nat) : (fuel : Nat) → (blank : Bool) →
    (broken ends text : List Char) → Cursor → Option (List Char × List Char × List Char × Cursor)
  | 0, _, _, _, _, _ => none
  | fuel + 1, blank, broken, ends, text, c =>
    if c.column ≠ indent || c.rest.isEmpty then some (text, broken, ends, c)
    else do
      let nowBlank := (c.rest.head?.map isBlank).getD false
      let before :=
        if folded && broken = ['\n'] && !blank && !nowBlank then
          if ends = [] then [' '] else ends
        else ends ++ broken
      let line := c.rest.takeWhile fun d => !isBreak d
      let atEnd := c.skip line.length
      let (ends, _, next) ← blockGap (some indent) fuel 0 [] atEnd.nextLine
      blockLines folded indent fuel nowBlank (endText atEnd) ends (line.reverse ++ (before ++ text))
        next

/-- The block of lines at a cursor that stands after its sign.  It is indented by `least` at least,
the column after that of the block around it. -/
def blockScalar? (folded : Bool) (least : Nat) (c : Cursor) : Option (String × Cursor) := do
  let (head, start) ← BlockHead.read? c
  let told := head.indent.map (least - 1 + ·)
  let fuel := start.rest.length + 2
  let (ends, widest, first) ← blockGap told fuel 0 [] start
  let indent := told.getD (max widest (max least 1))
  let (text, broken, ends, after) ← blockLines folded indent fuel false [] ends [] first
  let kept := match head.chomping with
    | .strip => []
    | .clip => broken
    | .keep => ends ++ broken
  return (String.ofList (kept ++ text).reverse, after)

end StudyArchive.Yaml
