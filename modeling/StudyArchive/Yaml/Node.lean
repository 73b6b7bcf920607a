import StudyArchive.Table
import StudyArchive.Yaml.Token.Lexer
/-
# Nodes of a YAML text

A text holds one document: a scalar, a list or a mapping, the latter two as blocks or between
brackets.  A node may have an anchor, and an alias elsewhere stands for it, so nodes may contain
themselves; an alias is therefore followed when it is read, not when the text is.
-/

namespace StudyArchive.Yaml

inductive Node where
  | scalar (text : String) (style : ScalarStyle) (tag : Option Bytes)
  | list (items : List Node) (tag : Option Bytes)
  | mapping (members : List (Node × Node)) (tag : Option Bytes)
  /-- A node that stands elsewhere, by the number of its anchor's name. -/
  | alias (number : Nat)

namespace Node

/-- What stands where nothing is written. -/
def blank : Node := scalar "" .plain none

instance : Inhabited Node := ⟨blank⟩

end Node

/-- The anchors of a document.  A name gets as its number how many names there were before; a name
that comes again does not count, though it gets a number anew. -/
structure Anchors where
  numbers : Table String Nat := ∅
  /-- The anchored node that a number means, by its place among all of them; the last one counts. -/
  places : Table Nat Nat := ∅
  nodes : Table Nat Node := ∅
  /-- How many anchored nodes there are. -/
  count : Nat := 0

namespace Anchors

/-- A new anchored node, and its place. -/
def add (a : Anchors) (name : String) : Nat × Anchors :=
  let number := a.numbers.size
  (a.count, { a with
    numbers := a.numbers.insert name number
    places := a.places.insert number a.count
    count := a.count + 1 })

/-- The node itself, or the one that it stands for. -/
def follow (a : Anchors) : Node → Node
  | .alias number => ((a.places.get? number).bind a.nodes.get?).getD .blank
  | n => n

end Anchors

/-- What is left of the tokens while nodes are built from them. -/
structure Building where
  tokens : List Token
  anchors : Anchors := {}
  /-- What the handles of tags stand for. -/
  handles : Table String Bytes

/-- Build something from the tokens, if they allow it. -/
abbrev Builder := StateT Building Option

namespace Builder

def peek : Builder (Option Token) := return (← get).tokens.head?

def pass : Builder Unit := modify fun b => { b with tokens := b.tokens.tail }

/-- Whether the next token is this one, which is then passed over. -/
def accept (t : Token) : Builder Bool := do
  if (← peek) = some t then
    pass
    return true
  else return false

/-- Whether the next token is one of these. -/
def isNext (l : List Token) : Builder Bool := return ((← peek).map l.contains).getD false

/-! ## Anchors and tags

What may stand before a node, in either order, each of them once. -/

/-- The anchor before a node. -/
def anchor? : Builder (Option String) := do
  match ← peek with
  | some (.anchor name) =>
    pass
    return some name
  | _ => return none

/-- The tag before a node, its handle replaced by what it stands for. -/
def tag? : Builder (Option Bytes) := do
  match ← peek with
  | some (.tag handle suffix) =>
    pass
    if handle = "" then return some suffix
    else return some ((← ((← get).handles.get? handle)) ++ suffix)
  | _ => return none

/-- The anchor and the tag before a node, in either order. -/
def properties : Builder (Option String × Option Bytes) := do
  match ← anchor? with
  | some name => return (some name, ← tag?)
  | none =>
    let tag ← tag?
    return (← if tag.isSome then anchor? else pure none, tag)

/-- Build a node with an anchor, which is known from the node's beginning on. -/
def anchored (anchor : Option String) (build : Builder Node) : Builder Node := do
  match anchor with
  | none => build
  | some name =>
    let (place, anchors) := (← get).anchors.add name
    modify fun b => { b with anchors }
    let n ← build
    modify fun b => { b with anchors := { b.anchors with nodes := b.anchors.nodes.insert place n } }
    return n

/-! ## Nodes

The blocks and brackets of a text, by recursion on the tokens.  Fuel bounds the depth. -/

/-- What ends an item without a node in a block. -/
def blockStops : List Token := [.key, .value, .blockEnd]

mutual

/-- A node.  In a block it may be a block of its own; as a member's part it may be a list whose
dashes stand in the column of the keys. -/
def node (block member : Bool) : (fuel : Nat) → Builder Node
  | 0 => failure
  | fuel + 1 => do
    if let some (.alias name) ← peek then
      pass
      return .alias (← (← get).anchors.numbers.get? name)
    let (anchor, tag) ← properties
    match ← peek with
    | some (.scalar s style) =>
      pass
      anchored anchor (return .scalar s style (if tag = some (Bytes.ofText "!") then none else tag))
    | some .openList =>
      pass
      anchored anchor (return .list (← items true fuel) tag)
    | some .openMapping =>
      pass
      anchored anchor (return .mapping (← members true fuel) tag)
    | some .entry =>
      if member then anchored anchor (return .list (← dashes fuel) tag) else bare anchor tag
    | some .blockList =>
      if block then
        pass
        anchored anchor (return .list (← entries fuel) tag)
      else bare anchor tag
    | some .blockMapping =>
      if block then
        pass
        anchored anchor (return .mapping (← fields fuel) tag)
      else bare anchor tag
    | _ => bare anchor tag

/-- A node of which nothing but an anchor or a tag is written. -/
def bare (anchor : Option String) (tag : Option Bytes) : Builder Node :=
  if anchor.isSome || tag.isSome then anchored anchor (return .scalar "" .plain tag) else failure

/-- The entries of a list in a column of its own. -/
def entries : (fuel : Nat) → Builder (List Node)
  | 0 => failure
  | fuel + 1 => do
    if ← accept .blockEnd then return []
    unless ← accept .entry do failure
    let item ← if ← isNext [.entry, .blockEnd] then pure .blank else node true false fuel
    return item :: (← entries fuel)

/-- The entries of a list in the column of the keys around it. -/
def dashes : (fuel : Nat) → Builder (List Node)
  | 0 => failure
  | fuel + 1 => do
    if ← accept .entry then
      let item ←
        if ← isNext (.entry :: blockStops) then pure .blank else node true false fuel
      return item :: (← dashes fuel)
    else return []

/-- The members of a mapping in a column. -/
def fields : (fuel : Nat) → Builder (List (Node × Node))
  | 0 => failure
  | fuel + 1 => do
    if ← accept .blockEnd then return []
    unless ← accept .key do failure
    let key ← if ← isNext blockStops then pure .blank else node true true fuel
    let value ←
      if ← accept .value then
        if ← isNext blockStops then pure .blank else node true true fuel
      else pure .blank
    return (key, value) :: (← fields fuel)

/-- The items of a list in brackets.  A key among them makes a mapping of one member. -/
def items (first : Bool) : (fuel : Nat) → Builder (List Node)
  | 0 => failure
  | fuel + 1 => do
    if ← accept .closeList then return []
    unless first do
      unless ← accept .comma do failure
    if ← accept .key then
      let item ← pair fuel
      return item :: (← items false fuel)
    else if ← accept .closeList then return []
    else
      let item ← node false false fuel
      return item :: (← items false fuel)

/-- The one member of a mapping among the items of a list, its key's token passed over.  The token
that stands in place of a key is passed over with it. -/
def pair : (fuel : Nat) → Builder Node
  | 0 => failure
  | fuel + 1 => do
    let key ←
      if ← isNext [.value, .comma, .closeList] then
        pass
        pure .blank
      else node false false fuel
    let value ←
      if ← accept .value then
        if ← isNext [.comma, .closeList] then pure .blank else node false false fuel
      else pure .blank
    return .mapping [(key, value)] none

/-- The members of a mapping in brackets. -/
def members (first : Bool) : (fuel : Nat) → Builder (List (Node × Node))
  | 0 => failure
  | fuel + 1 => do
    if ← accept .closeMapping then return []
    unless first do
      unless ← accept .comma do failure
    if ← accept .key then
      let key ← if ← isNext [.value, .comma, .closeMapping] then pure .blank
        else node false false fuel
      let value ←
        if ← accept .value then
          if ← isNext [.comma, .closeMapping] then pure .blank else node false false fuel
        else pure .blank
      return (key, value) :: (← members false fuel)
    else if ← accept .closeMapping then return []
    else
      let key ← node false false fuel
      return (key, .blank) :: (← members false fuel)

end

/-! ## Documents -/

/-- The handles that need no directive. -/
def standardHandles : List (String × Bytes) :=
  [("!", Bytes.ofText "!"), ("!!", Bytes.ofText "tag:yaml.org,2002:")]

/-- Read directives; each says something new. -/
def directives : (fuel : Nat) → (versioned : Bool) → (handles : Table String Bytes) →
    Builder (Table String Bytes)
  | 0, _, _ => failure
  | fuel + 1, versioned, handles => do
    match ← peek with
    | some (.version major minor) =>
      if versioned || major ≠ 1 || (minor ≠ 1 && minor ≠ 2) then failure
      pass
      directives fuel true handles
    | some (.tagDirective handle stem) =>
      if handles.contains handle then failure
      pass
      directives fuel versioned (handles.insert handle stem)
    | _ => return handles

/-- Whether a document may be announced, or be over, at a token. -/
def betweenDocuments : Option Token → Bool
  | none | some (.version ..) | some (.tagDirective ..) | some .documentStart
  | some .documentEnd => true
  | _ => false

/-- Announce a document: directives and the line after them. -/
def announcement : Builder Unit := do
  let handles ← directives ((← get).tokens.length + 1) false ∅
  unless ← accept .documentStart do failure
  let known := standardHandles.foldl
    (fun (t : Table String Bytes) (handle, stem) =>
      if t.contains handle then t else t.insert handle stem) handles
  modify fun b => { b with handles := known }

/-- The one document of a row of tokens.  It needs no announcement; announced, it may be empty. -/
def document : Builder Node := do
  let fuel := 4 * (← get).tokens.length + 4
  let first ← peek
  if first = none then return .blank
  let announced := betweenDocuments first && first ≠ some .documentEnd
  if announced then announcement
  let root ← if announced && betweenDocuments (← peek) then pure .blank else node true false fuel
  modify fun b => { b with tokens := b.tokens.dropWhile (· = .documentEnd) }
  unless (← peek) = none do failure
  return root

end Builder

/-- A node with the anchors of its document. -/
structure Content where
  node : Node
  anchors : Anchors

namespace Content

/-- The document of a text; an empty text is an empty scalar. -/
def ofText? (s : String) : Option Content := do
  let tokens ← Token.ofText? s
  let (node, b) ← Builder.document.run { tokens, handles := ⟨Builder.standardHandles⟩ }
  return ⟨node, b.anchors⟩

/-- The node, or the one that it stands for. -/
def value (c : Content) : Node := c.anchors.follow c.node

/-- Another node of the same document. -/
def of (c : Content) (n : Node) : Content := { c with node := n }

end Content

end StudyArchive.Yaml
