import Tangent.Yaml.Token

/-!
# Reading YAML

The first document of a text is built from its tokens. What follows it is not looked at, but for the
few tokens that are read ahead.

Every step takes a token, and a text has fewer than eight tokens for each of its characters, so that
much fuel is enough.
-/

namespace Tangent.Yaml

/-- A node with a name that later nodes may use. -/
structure Anchor where
  name : String
  number : Nat
  /-- The node; none while it is being read. -/
  node : Option Yaml

structure Reader where
  scanner : Scanner
  /-- What the handles of tags stand for. -/
  handles : List (String × String) := []
  /-- The named nodes, the latest first. -/
  anchors : List Anchor := []

abbrev Reading := StateT Reader Option

/-! ## Tokens -/

def peek : Reading Token := do
  let r ← get
  let (t, scanner) ← r.scanner.peek
  set { r with scanner }
  return t

def take : Reading Unit :=
  modify fun r => { r with scanner := r.scanner.take }

/-- Take a token if it is the given one. -/
def takeIf (t : Token) : Reading Bool := do
  if (← peek) = t then
    take
    return true
  return false

def expect (t : Token) : Reading Unit := do
  guard (← takeIf t)

/-- One of the tokens is next. -/
def sees (ts : List Token) : Reading Bool :=
  return ts.contains (← peek)

/-! ## Names and tags of nodes -/

/-- The node of a name; none while that is being read. -/
def nodeNamed (name : String) : Reading (Option Yaml) := do
  let anchor ← (← get).anchors.find? (·.name = name)
  return anchor.node

/-- Give a name to the node that is read next. -/
def announce (name : String) : Reading Nat :=
  modifyGet fun r =>
    let number := r.anchors.length
    (number, { r with anchors := { name, number, node := none } :: r.anchors })

/-- The node with the given number is read. -/
def settle (number : Nat) (y : Yaml) : Reading Unit :=
  modify fun r => { r with
    anchors := r.anchors.map fun a => if a.number = number then { a with node := some y } else a }

/-- The usual form of the tags that YAML defines itself. -/
def shortTag (tag : String) : String :=
  if tag.startsWith "tag:yaml.org,2002:" then "!!" ++ (tag.drop 18).toString else tag

/-- What a tag stands for. The tag of one exclamation mark says nothing. -/
def expandTag (handle suffix : String) : Reading (Option String) := do
  let tag ← if handle = "" then pure suffix
    else do
      let expansion ← (← get).handles.lookup handle
      pure (expansion ++ suffix)
  guard (tag ≠ "")
  return if tag = "!" then none else some (shortTag tag)

/-- What stands in front of a node. -/
structure Properties where
  anchor : Option Nat := none
  tag : Option String := none
  /-- Something stands there. -/
  any : Bool := false

/-- Read a name, if there is one. -/
def anchorOf (p : Properties) : Reading Properties := do
  match ← peek with
  | .anchor name =>
    take
    return { p with anchor := some (← announce name), any := true }
  | _ => return p

/-- Read a tag, if there is one. -/
def tagOf (p : Properties) : Reading Properties := do
  match ← peek with
  | .tag handle suffix =>
    take
    return { p with tag := ← expandTag handle suffix, any := true }
  | _ => return p

/-- Read the name and the tag of a node, in any order. -/
def properties : Reading Properties := do
  match ← peek with
  | .anchor _ => tagOf (← anchorOf {})
  | _ => anchorOf (← tagOf {})

/-- The node that has nothing but a name or a tag. -/
def Properties.bare (p : Properties) : Reading Yaml := do
  guard p.any
  return .scalar "" false p.tag

/-! ## Nodes -/

mutual

/-- Read a node. A block collection can start only if `block` says so, and a block sequence without
indentation only if `indentless` does. -/
def readNode : Nat → Bool → Bool → Reading Yaml
  | 0, _, _ => failure
  | fuel + 1, block, indentless => do
    if let .alias name := ← peek then
      take
      return .alias name (← nodeNamed name)
    let p ← properties
    let y ← match ← peek with
      | .scalar text quoted => do
        take
        pure (.scalar text quoted p.tag)
      | .flowSequenceStart => do
        take
        .sequence <$> readFlowItems fuel true []
      | .flowMappingStart => do
        take
        .mapping <$> readFlowEntries fuel true []
      | .blockSequenceStart =>
        if block then do
          take
          .sequence <$> readItems fuel []
        else p.bare
      | .blockMappingStart =>
        if block then do
          take
          .mapping <$> readEntries fuel []
        else p.bare
      | .blockEntry =>
        if indentless then .sequence <$> readLooseItems fuel [] else p.bare
      | _ => p.bare
    if let some number := p.anchor then
      settle number y
    return y

/-- Read a node, unless one of the tokens shows that there is none. -/
def readNodeUnless : Nat → List Token → Bool → Bool → Reading Yaml
  | 0, _, _, _ => failure
  | fuel + 1, ts, block, indentless => do
    if ← sees ts then return .nothing
    readNode fuel block indentless

/-- Read the items of a block sequence, and its end. -/
def readItems : Nat → List Yaml → Reading (List Yaml)
  | 0, _ => failure
  | fuel + 1, items => do
    if ← takeIf .blockEnd then return items.reverse
    expect .blockEntry
    let item ← readNodeUnless fuel [.blockEntry, .blockEnd] true false
    readItems fuel (item :: items)

/-- Read the items of a block sequence that stands at the column of its key. -/
def readLooseItems : Nat → List Yaml → Reading (List Yaml)
  | 0, _ => failure
  | fuel + 1, items => do
    if !(← takeIf .blockEntry) then return items.reverse
    let item ← readNodeUnless fuel [.blockEntry, .key, .value, .blockEnd] true false
    readLooseItems fuel (item :: items)

/-- Read the entries of a block mapping, and its end. -/
def readEntries : Nat → List (Yaml × Yaml) → Reading (List (Yaml × Yaml))
  | 0, _ => failure
  | fuel + 1, entries => do
    if ← takeIf .blockEnd then return entries.reverse
    expect .key
    let key ← readNodeUnless fuel [.key, .value, .blockEnd] true true
    let value ← if ← takeIf .value then
        readNodeUnless fuel [.key, .value, .blockEnd] true true
      else pure .nothing
    readEntries fuel ((key, value) :: entries)

/-- Read the items of a flow sequence, and the bracket that closes it. An item that is marked as a
key is a mapping of one entry. -/
def readFlowItems : Nat → Bool → List Yaml → Reading (List Yaml)
  | 0, _, _ => failure
  | fuel + 1, first, items => do
    if ← takeIf .flowSequenceEnd then return items.reverse
    if !first then
      expect .flowEntry
      if ← takeIf .flowSequenceEnd then return items.reverse
    if ← takeIf .key then
      let key ← if ← sees [.value, .flowEntry, .flowSequenceEnd] then do
          take
          pure .nothing
        else readNode fuel false false
      let value ← readFlowValue fuel .flowSequenceEnd
      readFlowItems fuel false (.mapping [(key, value)] :: items)
    else
      readFlowItems fuel false ((← readNode fuel false false) :: items)

/-- Read the entries of a flow mapping, and the brace that closes it. -/
def readFlowEntries : Nat → Bool → List (Yaml × Yaml) → Reading (List (Yaml × Yaml))
  | 0, _, _ => failure
  | fuel + 1, first, entries => do
    if ← takeIf .flowMappingEnd then return entries.reverse
    if !first then
      expect .flowEntry
      if ← takeIf .flowMappingEnd then return entries.reverse
    if ← takeIf .key then
      let key ← readNodeUnless fuel [.value, .flowEntry, .flowMappingEnd] false false
      let value ← readFlowValue fuel .flowMappingEnd
      readFlowEntries fuel false ((key, value) :: entries)
    else
      let key ← readNode fuel false false
      readFlowEntries fuel false ((key, .nothing) :: entries)

/-- Read the value of a key in a flow collection with the given end; there may be none. -/
def readFlowValue : Nat → Token → Reading Yaml
  | 0, _ => failure
  | fuel + 1, stop => do
    if ← takeIf .value then readNodeUnless fuel [.flowEntry, stop] false false
    else return .nothing

end

/-! ## Documents -/

/-- Read the directives of a document. The version is 1.1, and no handle is explained twice. -/
def readDirectives : Nat → Bool → List (String × String) → Reading (List (String × String))
  | 0, _, _ => failure
  | fuel + 1, versioned, handles => do
    match ← peek with
    | .version major minor =>
      guard (!versioned && major = 1 && minor = 1)
      take
      readDirectives fuel true handles
    | .tagHandle handle expansion =>
      guard (handles.lookup handle).isNone
      take
      readDirectives fuel versioned (handles ++ [(handle, expansion)])
    | _ => return handles

/-- Read a document: none if the text has only white space and comments. What follows the document
has to be readable as far as the next token. -/
def readDocument (fuel : Nat) : Reading (Option Yaml) := do
  if ← sees [.streamEnd] then return none
  let first ← peek
  let handles ← readDirectives fuel false []
  modify fun r => { r with handles := handles ++ [("!", "!"), ("!!", "tag:yaml.org,2002:")] }
  let y ← if ← takeIf .documentStart then
      match ← peek with
      | .version .. | .tagHandle .. | .documentStart | .documentEnd | .streamEnd => pure .nothing
      | _ => readNode fuel true false
    else do
      guard ((← peek) = first)
      readNode fuel true false
  let _ ← peek
  return some y

/-- The characters that a text may have. -/
def isReadable (c : Char) : Bool :=
  let n := c.toNat
  c == '\t' || c == '\n' || c == '\r' || n == 0x85 || (0x20 ≤ n && n ≤ 0x7e)
    || (0xa0 ≤ n && n ≤ 0xfffd) || 0x10000 ≤ n

/-- The number of bytes that are loaded at once. -/
def pieceSize : Nat := 512

/-- The characters at the front that lie inside the given number of bytes. -/
def within : Nat → List Char → List Char
  | _, [] => []
  | n, c :: rest => if c.utf8Size ≤ n then c :: within (n - c.utf8Size) rest else []

/-- The characters of a text that are loaded when all but `rest` of it is read. -/
def loaded (cs rest : List Char) : List Char :=
  let read := ((cs.take (cs.length - rest.length)).map Char.utf8Size).foldr (· + ·) 0
  within ((read / pieceSize + 1) * pieceSize) cs

/-- A text without the mark of its encoding. -/
def withoutMark : List Char → List Char
  | '\ufeff' :: rest => rest
  | cs => cs

/-- The first document of a text. The outer result is none if it cannot be read, and the inner one
if there is no document. -/
def read? (text : String) : Option (Option Yaml) := do
  let rest := withoutMark text.toList
  let scanner : Scanner := { cursor := { rest }, marked := rest.head? == some '\ufeff' }
  let (y, r) ← (readDocument (8 * rest.length + 16)).run { scanner }
  guard ((loaded text.toList r.scanner.cursor.rest).all isReadable)
  return y

end Tangent.Yaml
