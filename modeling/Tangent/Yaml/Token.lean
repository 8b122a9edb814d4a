import Tangent.Text.Bytes
import Tangent.Yaml.ScalarText
import Tangent.Yaml.Value

/-!
# Tokens of a document

A text is cut into tokens. The ends of block collections and the keys of mappings have tokens as
well, though nothing is written there: a collection ends where the text moves to the left of it, and
a key is recognised by the colon behind it. So each token that may start a key is remembered until
the colon is found or can no longer be there, which is at the end of the line or after 1024
characters.

The reader of tokens takes them from a queue. Three tokens are in the queue whenever one is taken,
and more while the first is awaited to turn out to be a key. An empty flow collection is not awaited
any longer once it is closed, though it still may be a key: if its tokens are taken before the colon
is found, the token of the key comes after them.
-/

namespace Tangent.Yaml

inductive Token
  | streamEnd
  | version (major minor : Nat)
  | tagHandle (handle expansion : String)
  | documentStart
  | documentEnd
  | blockSequenceStart
  | blockMappingStart
  | blockEnd
  | flowSequenceStart
  | flowSequenceEnd
  | flowMappingStart
  | flowMappingEnd
  | blockEntry
  | flowEntry
  | key
  | value
  | alias (name : String)
  | anchor (name : String)
  | tag (handle suffix : String)
  | scalar (text : String) (quoted : Bool)
deriving DecidableEq

/-- The token that may start a key, at one level of flow collections. -/
structure KeySlot where
  /-- There is such a token. -/
  possible : Bool := false
  /-- The number of the token. -/
  token : Nat := 0
  /-- The token has to start a key, because it stands where the keys of a block mapping do. -/
  required : Bool := false
  line : Nat := 0
  col : Nat := 0
  index : Nat := 0

structure Scanner where
  cursor : Cursor
  queue : List Token := []
  /-- The number of tokens that were taken from the queue. -/
  taken : Nat := 0
  /-- The columns of the open block collections, the innermost first. -/
  columns : List Nat := []
  /-- The next token may start a key. -/
  keyAllowed : Bool := true
  /-- The possible keys, one for each open flow collection and one for the outside, innermost first. -/
  keys : List KeySlot := [{}]
  /-- The numbers of the tokens that are awaited to start a key, and at which level they stand. The
  latest come first. -/
  awaited : List (Nat × Nat) := []
  /-- The text starts with the mark of its encoding twice; then lines start with a character that does
  not count. -/
  marked : Bool := false

namespace Scanner

def inFlow (s : Scanner) : Bool :=
  !(s.keys.drop 1).isEmpty

/-- Lines that continue a scalar of the innermost block collection start here or to the right. -/
def margin (s : Scanner) : Nat :=
  match s.columns with
  | [] => 0
  | col :: _ => col + 1

def push (s : Scanner) (t : Token) : Scanner :=
  { s with queue := s.queue ++ [t] }

/-- Push a token of the next `n` characters. -/
def pushMark (s : Scanner) (t : Token) (n : Nat) : Scanner :=
  { s.push t with cursor := s.cursor.advance n }

/-! ## Keys -/

/-- The number of the next token that is put at the end of the queue. -/
def nextToken (s : Scanner) : Nat :=
  s.taken + s.queue.length

/-- The token is not awaited any longer. -/
def release (s : Scanner) (token : Nat) : Scanner :=
  { s with awaited := s.awaited.filter (·.1 ≠ token) }

/-- Whether the colon of a possible key may still be found here. The key is not possible any longer if
it cannot, which is an error if it must. -/
def isOpen (s : Scanner) (place : Nat) : Option (Bool × Scanner) :=
  match s.keys[place]? with
  | none => some (false, s)
  | some k =>
    if !k.possible then some (false, s)
    else if k.line < s.cursor.line || k.index + 1024 < s.cursor.index then
      if k.required then none
      else some (false, { s with keys := s.keys.set place { k with possible := false } })
    else some (true, s)

/-- Forget the possible key of the innermost collection. -/
def dropKey (s : Scanner) : Option Scanner :=
  match s.keys with
  | k :: keys =>
    if !k.possible then some s
    else if k.required then none
    else some ({ s with keys := { k with possible := false } :: keys }.release k.token)
  | [] => some s

/-- Remember that the next token may start a key, and forget what was awaited of tokens that are
taken. -/
def saveKey (s : Scanner) : Option Scanner :=
  if s.keyAllowed then do
    let s ← s.dropKey
    let c := s.cursor
    let k : KeySlot := {
      possible := true
      token := s.nextToken
      required := !s.inFlow && s.columns.head? == some c.col
      line := c.line, col := c.col, index := c.index }
    return { s with
      keys := k :: s.keys.drop 1
      awaited := (k.token, s.keys.length - 1)
        :: s.awaited.takeWhile fun (token, _) => s.taken ≤ token }
  else some s

/-! ## Block collections -/

/-- Put a token into the queue at the given place, or at the end. -/
def insert (s : Scanner) (place : Option Nat) (t : Token) : Scanner :=
  match place with
  | some n => { s with queue := s.queue.insertIdx n t }
  | none => s.push t

/-- Start a block collection at a column, unless it is open. Its token is put into the queue at the
given place, or at the end. -/
def indentTo (s : Scanner) (col : Nat) (place : Option Nat) (t : Token) : Option Scanner :=
  if s.inFlow || col < s.margin then some s
  else if maxDepth ≤ s.columns.length then none
  else some { s.insert place t with columns := col :: s.columns }

/-- End the block collections that satisfy a condition on their columns. -/
def closeWhile (s : Scanner) (p : Nat → Bool) : Scanner :=
  if s.inFlow then s
  else
    { s with
      columns := s.columns.dropWhile p
      queue := s.queue ++ (s.columns.takeWhile p).map fun _ => .blockEnd }

/-! ## Between tokens -/

/-- Move to the next token. Outside of flow collections a line break makes room for a key; where a
key may stand, tabs are not skipped. -/
def skipToToken : Nat → Scanner → Scanner
  | 0, s => s
  | fuel + 1, s =>
    let c := s.cursor
    let c := if c.col = 0 && s.marked && 3 < c.rest.length then c.next else c
    let c := c.skipWhile fun x => x == ' ' || (x == '\t' && (s.inFlow || !s.keyAllowed))
    let c := if c.looksAt '#' then c.skipComments c.total else c
    if c.atBreak then
      skipToToken fuel
        { s with cursor := c.nextLine.2, keyAllowed := s.keyAllowed || !s.inFlow }
    else { s with cursor := c }

/-- Move over a comment behind a token. -/
def skipLineComment (s : Scanner) : Scanner :=
  let c := s.cursor.skipWhile isBlank
  if c.looksAt '#' then { s with cursor := c.skipWhile fun x => !isBreak x } else s

/-! ## Names and tags -/

def isNameChar (c : Char) : Bool :=
  c.isAlphanum || c == '_' || c == '-'

/-- The characters of a tag, besides those of names. -/
def isTagChar (c : Char) : Bool :=
  isNameChar c || ";/?:@&=+$.,!~*'()[]".toList.contains c

/-- A byte that is written as a percent sign and two digits, and what follows it. -/
def percentByte? : List Char → Option (UInt8 × List Char)
  | '%' :: x :: y :: rest => do
    return (UInt8.ofNat (16 * (← Text.hexDigit? x) + (← Text.hexDigit? y)), rest)
  | _ => none

/-- The number of bytes of a character, by its first byte; zero if no character starts with it. -/
def byteWidth (b : UInt8) : Nat :=
  if b < 0x80 then 1
  else if b < 0xc0 then 0
  else if b < 0xe0 then 2
  else if b < 0xf0 then 3
  else if b < 0xf8 then 4
  else 0

/-- So many bytes that continue a character. -/
def percentTail? : Nat → List Char → Option (List UInt8 × List Char)
  | 0, cs => some ([], cs)
  | n + 1, cs => do
    let (b, rest) ← percentByte? cs
    guard (0x80 ≤ b && b < 0xc0)
    let (bytes, rest) ← percentTail? n rest
    return (b :: bytes, rest)

/-- A character whose bytes are written with percent signs, and what follows it. It need not be one
that there is. -/
def percentChar? (cs : List Char) : Option (List Char × List Char) := do
  let (b, rest) ← percentByte? cs
  let width := byteWidth b
  guard (width ≠ 0)
  let (bytes, rest) ← percentTail? (width - 1) rest
  return ((Text.ofBytes (b :: bytes)).toList, rest)

/-- The rest of a tag, with its escapes resolved. -/
def tagText : Nat → List Char → Option (List Char × List Char)
  | 0, _ => none
  | fuel + 1, cs =>
    match cs with
    | [] => some ([], [])
    | c :: rest =>
      if c == '%' then do
        let (piece, rest) ← percentChar? cs
        let (text, rest) ← tagText fuel rest
        return (piece ++ text, rest)
      else if isTagChar c then do
        let (text, rest) ← tagText fuel rest
        return (c :: text, rest)
      else some ([], cs)

/-- The handle at the front of a tag: an exclamation mark, a name, and maybe another mark. -/
def tagHandle (cs : List Char) : List Char × List Char :=
  let name := (cs.drop 1).takeWhile isNameChar
  let rest := (cs.drop 1).drop name.length
  if rest.head? == some '!' then ('!' :: name ++ ['!'], rest.drop 1) else ('!' :: name, rest)

/-- A tag, and what follows it. -/
def tag? (cs : List Char) : Option (Token × List Char) :=
  match cs with
  | '!' :: '<' :: rest => do
    let (suffix, rest) ← tagText (rest.length + 1) rest
    guard (!suffix.isEmpty && rest.head? == some '>')
    return (.tag "" (String.ofList suffix), rest.drop 1)
  | cs => do
    let (handle, rest) := tagHandle cs
    let (text, after) ← tagText (rest.length + 1) rest
    if 1 < handle.length && handle.getLast? == some '!' then
      guard (!text.isEmpty)
      return (.tag (String.ofList handle) (String.ofList text), after)
    let suffix := handle.drop 1 ++ text
    return (if suffix.isEmpty then .tag "" "!" else .tag "!" (String.ofList suffix), after)

/-! ## Directives -/

/-- A number of at most two digits, and what follows it. -/
def versionNumber (cs : List Char) : Option (Nat × List Char) :=
  let digits := cs.takeWhile Char.isDigit
  if digits.isEmpty || 2 < digits.length then none
  else some (digits.foldl (fun n c => 10 * n + (c.toNat - '0'.toNat)) 0, cs.drop digits.length)

/-- What a directive says, given what follows its percent sign. -/
def directive? (cs : List Char) : Option (Token × List Char) := do
  let name := cs.takeWhile isNameChar
  let rest := cs.drop name.length
  guard (endsWord rest)
  let rest := rest.dropWhile isBlank
  match String.ofList name with
  | "YAML" =>
    let (major, rest) ← versionNumber rest
    guard (rest.head? == some '.')
    let (minor, rest) ← versionNumber (rest.drop 1)
    return (.version major minor, rest)
  | "TAG" =>
    guard (rest.head? == some '!')
    let (handle, rest) := tagHandle rest
    guard (handle.length = 1 || handle.getLast? == some '!')
    guard (rest.head?.any isBlank)
    let rest := rest.dropWhile isBlank
    let (expansion, rest) ← tagText (rest.length + 1) rest
    guard (!expansion.isEmpty && endsWord rest)
    return (.tagHandle (String.ofList handle) (String.ofList expansion), rest)
  | _ => none

/-! ## One token -/

def readEnd (s : Scanner) : Option Scanner := do
  let c := s.cursor
  let c := if c.col = 0 then c else { c with line := c.line + 1, col := 0 }
  let s ← ({ s with cursor := c }.closeWhile fun _ => true).dropKey
  return { s with keyAllowed := false }.push .streamEnd

def readDirective (s : Scanner) : Option Scanner := do
  let s ← (s.closeWhile fun _ => true).dropKey
  let c := s.cursor
  let (t, rest) ← directive? (c.rest.drop 1)
  let c := (c.advance (c.rest.length - rest.length)).skipWhile isBlank
  let c := if c.looksAt '#' then c.skipWhile fun x => !isBreak x else c
  guard (c.atEnd || c.atBreak)
  return { s.push t with cursor := c.nextLine.2, keyAllowed := false }

def readDocumentMark (s : Scanner) (t : Token) : Option Scanner := do
  let s ← (s.closeWhile fun _ => true).dropKey
  return { s.pushMark t 3 with keyAllowed := false }

def readFlowStart (s : Scanner) (t : Token) : Option Scanner := do
  let s ← s.saveKey
  guard (s.keys.length ≤ maxDepth)
  return { s.pushMark t 1 with
    keys := { token := s.nextToken } :: s.keys
    keyAllowed := true }

def readFlowEnd (s : Scanner) (t : Token) : Option Scanner := do
  let s ← s.dropKey
  let s := match s.keys with
    | k :: outer :: keys => { s with keys := outer :: keys }.release k.token
    | _ => s
  return { s.pushMark t 1 with keyAllowed := false }

def readFlowEntry (s : Scanner) : Option Scanner := do
  let s ← s.dropKey
  return { s.pushMark .flowEntry 1 with keyAllowed := true }

def readBlockEntry (s : Scanner) : Option Scanner := do
  guard (s.inFlow || s.keyAllowed)
  let s ← s.indentTo s.cursor.col none .blockSequenceStart
  let s ← s.dropKey
  return { s.pushMark .blockEntry 1 with keyAllowed := true }

def readKey (s : Scanner) : Option Scanner := do
  guard (s.inFlow || s.keyAllowed)
  let s ← s.indentTo s.cursor.col none .blockMappingStart
  let s ← s.dropKey
  return { s.pushMark .key 1 with keyAllowed := !s.inFlow }

/-- A colon. If what stands before it is a key, the token of the key is put in front of that, or at the
end if that has been taken from the queue. -/
def readValue (s : Scanner) : Option Scanner := do
  let (simple, s) ← s.isOpen 0
  match simple, s.keys with
  | true, k :: keys =>
    let place := if s.taken ≤ k.token then some (k.token - s.taken) else none
    let s := s.insert place .key
    let s ← s.indentTo k.col place .blockMappingStart
    let s := { s.pushMark .value 1 with keys := { k with possible := false } :: keys }
    return { s.release k.token with keyAllowed := false }
  | _, _ =>
    guard (s.inFlow || s.keyAllowed)
    let s ← s.indentTo s.cursor.col none .blockMappingStart
    return { s.pushMark .value 1 with keyAllowed := !s.inFlow }

/-- A name behind `*` or `&`. -/
def readName (s : Scanner) (make : String → Token) : Option Scanner := do
  let s ← s.saveKey
  let name := (s.cursor.rest.drop 1).takeWhile isNameChar
  let rest := (s.cursor.rest.drop 1).drop name.length
  guard (!name.isEmpty)
  guard (endsWord rest || "?:,]\x7d%@`".toList.any fun x => rest.head? == some x)
  return { s.pushMark (make (String.ofList name)) (name.length + 1) with keyAllowed := false }

def readTag (s : Scanner) : Option Scanner := do
  let s ← s.saveKey
  let (t, rest) ← tag? s.cursor.rest
  guard (endsWord rest)
  return { s.pushMark t (s.cursor.rest.length - rest.length) with keyAllowed := false }

def readBlockText (s : Scanner) (literal : Bool) : Option Scanner := do
  let s ← s.dropKey
  let (text, cursor) ← readBlockScalar literal s.columns.head? s.cursor.next
  return { s.push (.scalar text true) with cursor, keyAllowed := true }

def readQuotedText (s : Scanner) (quote : Char) : Option Scanner := do
  let s ← s.saveKey
  let c := s.cursor.next
  let (text, cursor) ← readQuoted quote (c.total + 1) "" c
  return { s.push (.scalar text true) with cursor, keyAllowed := false }.skipLineComment

def readPlainText (s : Scanner) : Option Scanner := do
  let s ← s.saveKey
  let p ← readPlain s.inFlow s.margin (s.cursor.total + 1) "" {} s.cursor
  let s := { s.push (.scalar p.text false) with cursor := p.after, keyAllowed := p.broken }
  return if p.broken then s else s.skipLineComment

/-- A plain scalar may start with the first of these characters. -/
def startsPlain (inFlow : Bool) : List Char → Bool
  | [] => false
  | c :: rest =>
    if c == '-' then !rest.head?.any isBlank
    else if c == '?' || c == ':' then !inFlow && !endsWord rest
    else !isBlank c && !isBreak c && !",[]\x7b\x7d#&*!|>'\"%@`".toList.contains c

/-- Read the token that starts with the character `c`, which `rest` follows. -/
def readFrom (s : Scanner) (c : Char) (rest : List Char) : Option Scanner :=
  let commented (s : Option Scanner) := s.map skipLineComment
  let apart := s.inFlow || endsWord rest
  match c with
  | '[' => commented (s.readFlowStart .flowSequenceStart)
  | '\x7b' => commented (s.readFlowStart .flowMappingStart)
  | ']' => commented (s.readFlowEnd .flowSequenceEnd)
  | '\x7d' => commented (s.readFlowEnd .flowMappingEnd)
  | ',' => commented s.readFlowEntry
  | '*' => commented (s.readName .alias)
  | '&' => commented (s.readName .anchor)
  | '!' => commented s.readTag
  | '\'' | '"' => s.readQuotedText c
  | _ =>
    if c == '-' && endsWord rest then s.readBlockEntry
    else if c == '?' && apart then commented s.readKey
    else if c == ':' && apart then commented s.readValue
    else if (c == '|' || c == '>') && !s.inFlow then s.readBlockText (c == '|')
    else if startsPlain s.inFlow (c :: rest) then s.readPlainText
    else none

/-- Put the next token into the queue, and the tokens in front of it that are not written. -/
def read (s : Scanner) : Option Scanner :=
  let s := s.skipToToken (s.cursor.total + 1)
  let s := s.closeWhile fun col => s.cursor.col < col
  match s.cursor.rest with
  | [] => s.readEnd
  | c :: rest =>
    if s.cursor.col = 0 && c == '%' then s.readDirective
    else if s.cursor.atMarks '-' then s.readDocumentMark .documentStart
    else if s.cursor.atMarks '.' then s.readDocumentMark .documentEnd
    else s.readFrom c rest

/-! ## The queue -/

/-- Whether the first token of the queue is known to be no key, or has its key in front of it. -/
def headIsSettled (s : Scanner) : Option (Bool × Scanner) :=
  match s.awaited.lookup s.taken with
  | some level => do
    let (isOpen, s) ← s.isOpen (s.keys.length - 1 - level)
    return (!isOpen, s)
  | none => some (true, s)

/-- Read tokens until the first one can be taken. -/
def fill : Nat → Scanner → Option Scanner
  | 0, _ => none
  | fuel + 1, s => do
    if s.queue.length < 3 then fill fuel (← s.read)
    else
      let (settled, s) ← s.headIsSettled
      if settled then return s
      fill fuel (← s.read)

/-- The first token, and the scanner with that token in its queue. -/
def peek (s : Scanner) : Option (Token × Scanner) := do
  let s ← s.fill (s.cursor.total + 4)
  return (← s.queue.head?, s)

/-- Take the first token. -/
def take (s : Scanner) : Scanner :=
  { s with queue := s.queue.drop 1, taken := s.taken + 1 }

end Scanner

end Tangent.Yaml
