import StudyArchive.Yaml.Token.Property
/-
# Taking tokens off a text

Most tokens are told by their first characters.  That a scalar is a key shows only at the colon
after it, on the same line and not far away: the lexer remembers the last place where a key may
have begun, and puts the key's token there, with the start of a block before it if the key stands
further right than the block around it.
-/

namespace StudyArchive.Yaml

/-- A place where a key may have begun. -/
structure KeyMark where
  /-- The number of tokens before it. -/
  place : Nat
  /-- Whether nothing but a key can stand here. -/
  required : Bool
  /-- The number of bytes before it. -/
  index : Nat
  column : Nat
  line : Nat

/-- Whether a cursor is too far away for a key's colon. -/
def KeyMark.isStale (k : KeyMark) (c : Cursor) : Bool :=
  k.line < c.line || k.index + 1024 < c.index

/-- The state of taking tokens off a text. -/
structure Lexer where
  cursor : Cursor
  tokens : Array Token := #[]
  /-- The column after that of the innermost block, which is where what belongs to it begins. -/
  least : Nat := 0
  /-- The same for the blocks around it, innermost first. -/
  outer : List Nat := []
  /-- Where a key may have begun, in the innermost brackets. -/
  key : Option KeyMark := none
  /-- The same for what is around each pair of open brackets, innermost first. -/
  outerKeys : List (Option KeyMark) := []
  /-- Whether a key may begin here. -/
  keyAllowed : Bool := true

namespace Lexer

/-- Whether the lexer is inside brackets, where columns mean nothing. -/
def inBrackets (l : Lexer) : Bool := !l.outerKeys.isEmpty

/-- Take so many characters as a token. -/
def take (l : Lexer) (t : Token) (n : Nat) : Lexer :=
  { l with cursor := l.cursor.skip n, tokens := l.tokens.push t }

/-- Take a token that ends at a cursor. -/
def takeTo (l : Lexer) (t : Token) (c : Cursor) : Lexer :=
  { l with cursor := c, tokens := l.tokens.push t }

/-! ## Blocks -/

/-- End blocks while what belongs to them begins beyond a limit. -/
def closeFrom (limit : Nat) (tokens : Array Token) (least : Nat) :
    (outer : List Nat) → Array Token × Nat × List Nat
  | [] => (tokens, least, [])
  | o :: rest =>
    if limit < least then closeFrom limit (tokens.push .blockEnd) o rest
    else (tokens, least, o :: rest)

/-- End the blocks that something in a column, whose successor is the limit, does not belong to. -/
def closeBlocks (l : Lexer) (limit : Nat) : Lexer :=
  if l.inBrackets then l
  else
    let (tokens, least, outer) := closeFrom limit l.tokens l.least l.outer
    { l with tokens, least, outer }

/-- Begin a block in a column, with its token at a place, unless that column begins none. -/
def openBlock (l : Lexer) (column place : Nat) (t : Token) : Lexer :=
  if l.inBrackets || column < l.least then l
  else
    { l with
      tokens := l.tokens.insertIdxIfInBounds place t
      least := column + 1
      outer := l.least :: l.outer }

/-! ## Keys

A place where a key may have begun is dropped as soon as the key can no longer be one. -/

/-- Give up the place where a key may have begun; none if a key must be there. -/
def dropKey (l : Lexer) : Option Lexer :=
  match l.key with
  | some k => if k.required then none else some { l with key := none }
  | none => some l

/-- Keep a place unless it is stale; none if it is and a key must be there. -/
def fresh? (c : Cursor) : Option KeyMark → Option (Option KeyMark)
  | some k => if !k.isStale c then some (some k) else if k.required then none else some none
  | none => some none

/-- Give up the places that are too far away. -/
def dropStale (l : Lexer) : Option Lexer := do
  return { l with
    key := ← fresh? l.cursor l.key
    outerKeys := ← l.outerKeys.mapM (fresh? l.cursor) }

/-- Remember the place, if a key may begin here. -/
def markKey (l : Lexer) : Option Lexer :=
  if !l.keyAllowed then some l
  else do
    let c := l.cursor
    let required := !l.inBrackets && l.least = c.column + 1
    return { ← l.dropKey with key := some ⟨l.tokens.size, required, c.index, c.column, c.line⟩ }

/-! ## Tokens -/

/-- The line that starts or ends a document, or a directive: it ends all blocks. -/
def betweenDocuments (l : Lexer) : Option Lexer := do
  return { ← (l.closeBlocks 0).dropKey with keyAllowed := false }

def openBracket (l : Lexer) (t : Token) : Option Lexer := do
  let l ← l.markKey
  return { l with key := none, outerKeys := l.key :: l.outerKeys, keyAllowed := true }.take t 1

def closeBracket (l : Lexer) (t : Token) : Option Lexer := do
  let l ← l.dropKey
  let l := match l.outerKeys with
    | key :: outerKeys => { l with key, outerKeys }
    | [] => l
  return { l with keyAllowed := false }.take t 1

/-- A sign that may stand outside brackets only where a key may begin, and begins a block there. -/
def blockSign (l : Lexer) (block : Token) : Option Lexer :=
  if l.inBrackets then some l
  else if l.keyAllowed then some (l.openBlock l.cursor.column l.tokens.size block)
  else none

/-- The colon before a value. -/
def colon (l : Lexer) : Option Lexer := do
  let l ← match l.key with
    | some k =>
      let l := { l with tokens := l.tokens.insertIdxIfInBounds k.place .key }
      pure { l.openBlock k.column k.place .blockMapping with key := none, keyAllowed := false }
    | none => pure { ← l.blockSign .blockMapping with keyAllowed := !l.inBrackets }
  return l.take .value 1

/-- A node, or a part of one, that may be a key: its token and the cursor after it. -/
def keyPart (l : Lexer) (found : Option (Token × Cursor)) : Option Lexer := do
  let (t, after) ← found
  return { ← l.markKey with keyAllowed := false }.takeTo t after

def lines (l : Lexer) (style : ScalarStyle) : Option Lexer := do
  let (s, after) ← blockScalar? (style = .folded) l.least (l.cursor.skip 1)
  return { ← l.dropKey with keyAllowed := true }.takeTo (.scalar s style) after

/-- A plain scalar.  A key may begin on the line after it. -/
def plain (l : Lexer) : Option Lexer := do
  let (s, ended, after) ← plain? l.inBrackets l.least l.cursor
  return { ← l.keyPart (some (.scalar s .plain, after)) with keyAllowed := ended }

/-- The token that begins with a character. -/
def token (l : Lexer) (first : Char) (rest : List Char) : Option Lexer :=
  let c := l.cursor
  let next := c.skip 1
  if c.column = 0 && first = '%' then do
    let (t, after) ← Token.directive? next
    return (← l.betweenDocuments).takeTo t after
  else if c.atMarker then do
    return (← l.betweenDocuments).take (if first = '-' then .documentStart else .documentEnd) 3
  else
    match first with
    | '[' => l.openBracket .openList
    | '\x7b' => l.openBracket .openMapping
    | ']' => l.closeBracket .closeList
    | '\x7d' => l.closeBracket .closeMapping
    | ',' => do return { ← l.dropKey with keyAllowed := true }.take .comma 1
    | '*' => l.keyPart ((Token.name? next).map fun (s, after) => (.alias s, after))
    | '&' => l.keyPart ((Token.name? next).map fun (s, after) => (.anchor s, after))
    | '!' => l.keyPart (Token.tag? l.inBrackets c)
    | '\'' | '"' => l.keyPart ((quoted? c).map fun (s, after) => (.scalar s .quoted, after))
    | _ =>
      if first = '-' && breaksOff rest then do
        return { ← (← l.blockSign .blockList).dropKey with keyAllowed := true }.take .entry 1
      else if first = '?' && (l.inBrackets || breaksOff rest) then do
        let l ← (← l.blockSign .blockMapping).dropKey
        return { l with keyAllowed := !l.inBrackets }.take .key 1
      else if first = ':' && (l.inBrackets || breaksOff rest) then l.colon
      else if first = '|' && !l.inBrackets then l.lines .literal
      else if first = '>' && !l.inBrackets then l.lines .folded
      else if startsPlain l.inBrackets (first :: rest) then l.plain
      else none

/-- Go to the next token: places of keys get stale on the way, and blocks end there. -/
def approach (l : Lexer) : Option Lexer := do
  let c := l.cursor.token (l.inBrackets || !l.keyAllowed) l.inBrackets
  let keyAllowed := l.keyAllowed || (!l.inBrackets && l.cursor.line < c.line)
  let l ← { l with cursor := c, keyAllowed }.dropStale
  return l.closeBlocks (c.column + 1)

/-- The tokens of the rest of a text.  Each takes a character at least, so its length is fuel
enough. -/
def run : (fuel : Nat) → Lexer → Option (List Token)
  | 0, _ => none
  | fuel + 1, l => do
    let l ← l.approach
    match l.cursor.rest with
    | [] => return (← (l.closeBlocks 0).dropKey).tokens.toList
    | first :: rest => run fuel (← l.token first rest)

end Lexer

def Token.ofText? (s : String) : Option (List Token) :=
  let cs := s.toList
  if cs.all isPrintable then Lexer.run (cs.length + 1) { cursor := { rest := cs } } else none

end StudyArchive.Yaml
