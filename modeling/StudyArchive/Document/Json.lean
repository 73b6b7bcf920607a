import StudyArchive.Codec.Hex
import StudyArchive.Document.Basic
/-
# Documents as JSON

Reading takes a whole JSON text and nothing after it.  A number without point and exponent is an
integer, any other number the real nearest to it.  Writing escapes what a JSON string must escape.
-/

namespace StudyArchive.Document.Json

/-! ## Reading

Each reader takes what it reads off the front of the characters.  Values nest, and every value
takes a character at least, so the number of the characters is fuel enough. -/

def isBlank (c : Char) : Bool := c = ' ' || c = '\t' || c = '\n' || c = '\r'

/-- A text without the blanks that it begins with. -/
def skip : List Char → List Char := List.dropWhile isBlank

/-- The number of four hexadecimal digits. -/
def unit? (a b c d : Char) : Option Nat := do
  let hexDigit? := Bytes.hexDigit?
  return (((← hexDigit? a) * 16 + (← hexDigit? b)) * 16 + (← hexDigit? c)) * 16 + (← hexDigit? d)

/-- The character of a one-letter escape. -/
def escape? : Char → Option Char
  | '"' => some '"'
  | '\\' => some '\\'
  | '/' => some '/'
  | 'b' => some '\x08'
  | 'f' => some '\x0c'
  | 'n' => some '\n'
  | 'r' => some '\r'
  | 't' => some '\t'
  | _ => none

/-- The characters of a string up to its closing quote, and the rest after it. -/
def string? : List Char → Option (List Char × List Char)
  | [] => none
  | '"' :: rest => some ([], rest)
  | '\\' :: 'u' :: a :: b :: c :: d :: '\\' :: 'u' :: e :: f :: g :: h :: rest => do
    let first ← unit? a b c d
    let second ← unit? e f g h
    if 0xD800 ≤ first ∧ first < 0xDC00 ∧ 0xDC00 ≤ second ∧ second < 0xE000 then
      let (more, rest) ← string? rest
      return (Char.ofNat (0x10000 + (first - 0xD800) * 1024 + (second - 0xDC00)) :: more, rest)
    else
      let (more, rest) ← string? ('\\' :: 'u' :: e :: f :: g :: h :: rest)
      return (Char.ofNat first :: more, rest)
  | '\\' :: 'u' :: a :: b :: c :: d :: rest => do
    let first ← unit? a b c d
    let (more, rest) ← string? rest
    return (Char.ofNat first :: more, rest)
  | '\\' :: c :: rest => do
    let first ← escape? c
    let (more, rest) ← string? rest
    return (first :: more, rest)
  | c :: rest => do
    let (more, rest) ← string? rest
    return (c :: more, rest)

/-- The number that decimal digits spell. -/
def digitsValue (digits : List Char) : Nat :=
  digits.foldl (fun n c => n * 10 + (c.toNat - '0'.toNat)) 0

/-- The exponent that a text begins with, if it begins with one. -/
def exponent (cs : List Char) : Option Int × List Char :=
  match cs with
  | e :: rest =>
    if e ≠ 'e' ∧ e ≠ 'E' then (none, cs)
    else
      let (negative, rest) :=
        match rest with
        | '-' :: rest => (true, rest)
        | '+' :: rest => (false, rest)
        | rest => (false, rest)
      let size : Int := digitsValue (rest.takeWhile Char.isDigit)
      (some (if negative then -size else size), rest.dropWhile Char.isDigit)
  | [] => (none, cs)

def number? (cs : List Char) : Option (Document × List Char) :=
  let (negative, cs) := match cs with
    | '-' :: rest => (true, rest)
    | cs => (false, cs)
  let whole := cs.takeWhile Char.isDigit
  let rest := cs.dropWhile Char.isDigit
  if whole = [] then none
  else
    let (places, rest) := match rest with
      | '.' :: rest => (some (rest.takeWhile Char.isDigit), rest.dropWhile Char.isDigit)
      | rest => (none, rest)
    let (power, rest) := exponent rest
    if places.isNone ∧ power.isNone ∧ ¬(negative ∧ digitsValue whole = 0) then
      let size : Int := digitsValue whole
      some (int (if negative then -size else size), rest)
    else
      let places := places.getD []
      let mantissa := digitsValue (whole ++ places)
      some (real (.ofDecimal negative mantissa (power.getD 0 - places.length)), rest)

/-- A constant word. -/
def word? (word : List Char) (value : Document) (cs : List Char) : Option (Document × List Char) :=
  if word.isPrefixOf cs then some (value, cs.drop word.length) else none

mutual

/-- A value; the fuel bounds the nesting and the number of members together. -/
def value? : (fuel : Nat) → List Char → Option (Document × List Char)
  | 0, _ => none
  | fuel + 1, cs =>
    match skip cs with
    | '"' :: rest => do
      let (chars, rest) ← string? rest
      return (text (String.ofList chars), rest)
    | '[' :: rest =>
      match skip rest with
      | ']' :: rest => some (list [], rest)
      | rest => do
        let (items, rest) ← items? fuel rest
        return (list items, rest)
    | '\x7b' :: rest =>
      match skip rest with
      | '\x7d' :: rest => some (object [], rest)
      | rest => do
        let (members, rest) ← members? fuel rest
        return (object members, rest)
    | 't' :: rest => word? ['r', 'u', 'e'] (bool true) rest
    | 'f' :: rest => word? ['a', 'l', 's', 'e'] (bool false) rest
    | 'n' :: rest => word? ['u', 'l', 'l'] null rest
    | cs => number? cs

/-- Items up to the closing bracket. -/
def items? : (fuel : Nat) → List Char → Option (List Document × List Char)
  | 0, _ => none
  | fuel + 1, cs => do
    let (first, rest) ← value? fuel cs
    match skip rest with
    | ',' :: rest =>
      let (more, rest) ← items? fuel rest
      return (first :: more, rest)
    | ']' :: rest => return ([first], rest)
    | _ => none

/-- Members up to the closing brace. -/
def members? : (fuel : Nat) → List Char → Option (List (String × Document) × List Char)
  | 0, _ => none
  | fuel + 1, cs => do
    match skip cs with
    | '"' :: rest =>
      let (key, rest) ← string? rest
      match skip rest with
      | ':' :: rest =>
        let (value, rest) ← value? fuel rest
        let first := (String.ofList key, value)
        match skip rest with
        | ',' :: rest =>
          let (more, rest) ← members? fuel rest
          return (first :: more, rest)
        | '\x7d' :: rest => return ([first], rest)
        | _ => none
      | _ => none
    | _ => none

end

/-- The document that a JSON text spells. -/
def read? (s : String) : Option Document := do
  let cs := s.toList
  let (d, rest) ← value? (cs.length + 1) cs
  if skip rest = [] then some d else none

/-! ## Writing -/

/-- A character inside a JSON string. -/
def escaped (c : Char) : List Char :=
  if c = '"' then ['\\', '"']
  else if c = '\\' then ['\\', '\\']
  else if c.toNat < 0x20 then
    ['\\', 'u', '0', '0', Nat.digitChar (c.toNat / 16), Nat.digitChar (c.toNat % 16)]
  else [c]

def quoted (s : String) : String := String.ofList ('"' :: s.toList.flatMap escaped ++ ['"'])

mutual

/-- The JSON text of a document after a given text. -/
def put (before : String) : Document → String
  | null => before ++ "null"
  | bool b => before ++ if b then "true" else "false"
  | int v => before ++ toString v
  | real v => before ++ v.text
  | text s => before ++ quoted s
  | list items => putItems (before.push '[') true items |>.push ']'
  | object members => putMembers (before.push '\x7b') true members |>.push '\x7d'

/-- Items with commas between. -/
def putItems (before : String) (first : Bool) : List Document → String
  | [] => before
  | d :: rest => putItems (put (if first then before else before.push ',') d) false rest

/-- Members with commas between. -/
def putMembers (before : String) (first : Bool) : List (String × Document) → String
  | [] => before
  | (key, d) :: rest =>
    let before := if first then before else before.push ','
    putMembers (put (before ++ quoted key |>.push ':') d) false rest

end

def write (d : Document) : String := put "" d

end StudyArchive.Document.Json
