/-
# Places in a YAML text

A cursor is what is left of a text and where it begins: its column and line decide which block a
token belongs to, and its index and line how far a key may reach.
-/

namespace StudyArchive.Yaml

/-! ## Characters -/

/-- The characters that a text may hold. -/
def isPrintable (c : Char) : Bool :=
  c = '\t' || c = '\n' || c = '\r' || (' ' ≤ c && c ≤ '~') || c = '\u0085' ||
    ('\u00a0' ≤ c && c ≠ '\ufffe' && c ≠ '\uffff')

/-- The mark of the order of bytes, which may begin a line. -/
def byteOrderMark : Char := '\ufeff'

def isBlank (c : Char) : Bool := c = ' ' || c = '\t'

/-- The line and paragraph separators, which stand for themselves inside a scalar. -/
def isSeparator (c : Char) : Bool := c = '\u2028' || c = '\u2029'

/-- The characters that end a line. -/
def isBreak (c : Char) : Bool := c = '\n' || c = '\r' || c = '\u0085' || isSeparator c

/-- What a line end stands for inside a scalar. -/
def breakText (c : Char) : Char := if isSeparator c then c else '\n'

/-- The brackets, and the comma between what they hold. -/
def isBracketMark (c : Char) : Bool := c = ',' || c = '[' || c = ']' || c = '\x7b' || c = '\x7d'

/-- The characters of the names of anchors, directives and tag handles. -/
def isNameChar (c : Char) : Bool := c.isAlphanum || c = '_' || c = '-'

/-- Whether a text begins with a blank or a line end, or is over. -/
def breaksOff : List Char → Bool
  | [] => true
  | c :: _ => isBlank c || isBreak c

/-- Whether a text is over or at the end of a line. -/
def lineOver : List Char → Bool
  | [] => true
  | c :: _ => isBreak c

/-- Whether a text begins with the line that starts or ends a document. -/
def isMarker : List Char → Bool
  | '-' :: '-' :: '-' :: rest => breaksOff rest
  | '.' :: '.' :: '.' :: rest => breaksOff rest
  | _ => false

/-! ## Cursors -/

/-- The rest of a text and where it begins. -/
structure Cursor where
  rest : List Char
  /-- The number of bytes before it. -/
  index : Nat := 0
  column : Nat := 0
  line : Nat := 0

namespace Cursor

/-- The cursor after so many characters of its line. -/
def skip (c : Cursor) (n : Nat) : Cursor :=
  { c with
    rest := c.rest.drop n
    index := (c.rest.take n).foldl (fun i d => i + d.utf8Size) c.index
    column := c.column + n }

/-- The cursor after the first characters of its line that are of a kind. -/
def skipWhile (c : Cursor) (p : Char → Bool) : Cursor := c.skip (c.rest.takeWhile p).length

/-- The cursor at the start of the next line, if it stands at a line end.  A return with a line feed
is one line end. -/
def nextLine (c : Cursor) : Cursor :=
  match c.rest with
  | '\r' :: '\n' :: rest => ⟨rest, c.index + 2, 0, c.line + 1⟩
  | e :: rest => if isBreak e then ⟨rest, c.index + e.utf8Size, 0, c.line + 1⟩ else c
  | [] => c

/-- The cursor past blanks and a comment. -/
def skipComment (c : Cursor) : Cursor :=
  let c := c.skipWhile isBlank
  if c.rest.head? = some '#' then c.skipWhile fun d => !isBreak d else c

/-- Whether the cursor stands at the line that starts or ends a document. -/
def atMarker (c : Cursor) : Bool := c.column = 0 && isMarker c.rest

/-- The cursor past the mark that may begin a line. -/
def skipMark (c : Cursor) : Cursor :=
  if c.column = 0 && c.rest.head? = some byteOrderMark then c.skip 1 else c

/-- The next token, past spaces, line ends and comments.  Tabs are passed over where `tabs` says so;
`later` says it for the lines after the first. -/
def tokenFrom : (fuel : Nat) → (tabs later : Bool) → Cursor → Cursor
  | 0, _, _, c => c
  | fuel + 1, tabs, later, c =>
    let c := c.skipMark.skipWhile fun d => d = ' ' || (d = '\t' && tabs)
    let c := if c.rest.head? = some '#' then c.skipWhile fun d => !isBreak d else c
    match c.rest with
    | e :: _ => if isBreak e then tokenFrom fuel later later c.nextLine else c
    | [] => c

def token (c : Cursor) (tabs later : Bool) : Cursor := tokenFrom (c.rest.length + 1) tabs later c

end Cursor
end StudyArchive.Yaml
