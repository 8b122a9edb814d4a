import Tangent.Text.Quoted
import Tangent.Yaml.Cursor

/-!
# The texts of scalars

How plain, quoted and block scalars are read. Blanks at the ends of the lines of a scalar are
dropped; a single line break inside a plain or a quoted scalar becomes a blank, and of several line
breaks the first is dropped.
-/

namespace Tangent.Yaml

/-! ## Gaps -/

/-- The white space between two words of a scalar. -/
structure Gap where
  /-- The blanks, as long as there is no line break. -/
  blanks : String := ""
  broken : Bool := false
  /-- The first line break. -/
  first : List Char := []
  /-- The further line breaks. -/
  more : List Char := []

namespace Gap

/-- What a gap stands for. -/
def text (g : Gap) : String :=
  if !g.broken then g.blanks
  else if g.first.head? == some '\n' then
    if g.more.isEmpty then " " else String.ofList g.more
  else String.ofList (g.first ++ g.more)

/-- Read a gap. Below its first line a tab to the left of `margin` is refused. -/
def read (margin : Nat) : Nat → Gap → Cursor → Option (Gap × Cursor)
  | 0, g, c => some (g, c)
  | fuel + 1, g, c =>
    match c.rest with
    | [] => some (g, c)
    | x :: _ =>
      if isBlank x then
        if !g.broken then read margin fuel { g with blanks := g.blanks.push x } c.next
        else if x == '\t' && c.col < margin then none
        else read margin fuel g c.next
      else if isBreak x then
        let (text, below) := c.nextLine
        if g.broken then read margin fuel { g with more := g.more ++ text } below
        else read margin fuel { g with blanks := "", broken := true, first := text } below
      else some (g, c)

end Gap

/-! ## Plain scalars -/

/-- These characters end a plain scalar inside a flow collection. -/
def isFlowMark (c : Char) : Bool :=
  [',', '?', '[', ']', '\x7b', '\x7d'].contains c

/-- A word of a plain scalar: up to a blank, a line break, or a colon that a blank follows. -/
def plainWord (inFlow : Bool) : List Char → List Char
  | [] => []
  | c :: rest =>
    if isBlank c || isBreak c || (c == ':' && endsWord rest) || (inFlow && isFlowMark c) then []
    else c :: plainWord inFlow rest

/-- A plain scalar, and whether a line break was read after it. -/
structure Plain where
  text : String
  broken : Bool
  after : Cursor

/-- Read a plain scalar, of which `text` and the gap behind it are read. Outside of flow collections
its lines start at `margin` or to the right of it. -/
def readPlain (inFlow : Bool) (margin : Nat) : Nat → String → Gap → Cursor → Option Plain
  | 0, _, _, _ => none
  | fuel + 1, text, gap, c =>
    if c.atDocumentMark || c.looksAt '#' then some { text, broken := gap.broken, after := c }
    else
      let word := plainWord inFlow c.rest
      let c := c.advance word.length
      let text := if word.isEmpty then text else text ++ gap.text ++ String.ofList word
      let gap := if word.isEmpty then gap else {}
      if c.atBlank || c.atBreak then do
        let (gap, c) ← gap.read margin c.total c
        if !inFlow && c.col < margin then return { text, broken := gap.broken, after := c }
        readPlain inFlow margin fuel text gap c
      else some { text, broken := gap.broken, after := c }

/-! ## Quoted scalars -/

/-- A character given by its number, if it has one. -/
def charOf? (n : Nat) : Option Char :=
  if n.isValidChar then some (Char.ofNat n) else none

/-- The number that hexadecimal digits stand for. -/
def hexadecimal? (ds : List Char) : Option Nat :=
  ds.foldlM (fun n c => (16 * n + ·) <$> Text.hexDigit? c) 0

/-- What the character after a backslash stands for. -/
def escapes : List (Char × Char) :=
  [('0', '\x00'), ('a', '\x07'), ('b', '\x08'), ('t', '\t'), ('\t', '\t'), ('n', '\n'),
    ('v', '\x0b'), ('f', '\x0c'), ('r', '\r'), ('e', '\x1b'), (' ', ' '), ('"', '"'),
    ('\'', '\''), ('\\', '\\'), ('N', '\u0085'), ('_', '\u00a0'), ('L', '\u2028'), ('P', '\u2029')]

/-- The number of digits after a letter that gives a character by its number; zero for others. -/
def escapeDigits : Char → Nat
  | 'x' => 2
  | 'u' => 4
  | 'U' => 8
  | _ => 0

/-- The character that an escape stands for, and the length of the escape. -/
def escaped? : List Char → Option (Char × Nat)
  | [] => none
  | x :: rest =>
    let n := escapeDigits x
    if n = 0 then return (← escapes.lookup x, 2)
    else if rest.length < n then none
    else return (← (hexadecimal? (rest.take n)).bind charOf?, 2 + n)

/-- A word of a quoted scalar: up to a blank, a line break or the quote that ends it. An escaped line
break ends it as well, and is read. -/
structure QuotedWord where
  text : String
  brokenByEscape : Bool
  after : Cursor

/-- Read a word of a quoted scalar, behind a text. -/
def readQuotedWord (quote : Char) : Nat → String → Cursor → Option QuotedWord
  | 0, _, _ => none
  | fuel + 1, text, c =>
    let done : QuotedWord := { text, brokenByEscape := false, after := c }
    match c.rest with
    | [] => some done
    | x :: rest =>
      if isBlank x || isBreak x then some done
      else if x == quote then
        if quote == '\'' && rest.head? == some '\'' then
          readQuotedWord quote fuel (text.push x) (c.advance 2)
        else some done
      else if quote == '"' && x == '\\' then
        if rest.head?.any isBreak then
          some { done with brokenByEscape := true, after := c.next.nextLine.2 }
        else do
          let (y, length) ← escaped? rest
          readQuotedWord quote fuel (text.push y) (c.advance length)
      else readQuotedWord quote fuel (text.push x) c.next

/-- Read a quoted scalar behind a text, up to the quote that ends it. No line of it may look like one
that separates documents. -/
def readQuoted (quote : Char) : Nat → String → Cursor → Option (String × Cursor)
  | 0, _, _ => none
  | fuel + 1, text, c =>
    if c.atEnd || c.atDocumentMark then none
    else do
      let word ← readQuotedWord quote (c.total + 1) text c
      let c := word.after
      if c.looksAt quote then return (word.text, c.next)
      let (gap, c) ← ({ broken := word.brokenByEscape } : Gap).read 0 c.total c
      readQuoted quote fuel (word.text ++ gap.text) c

/-! ## Block scalars -/

/-- What becomes of the line breaks at the end of a block scalar. -/
inductive Chomp
  | strip | clip | keep
deriving DecidableEq

/-- The marks behind the one that starts a block scalar: what becomes of its end, and by how much it
is indented, if that is given. -/
def blockMarks : List Char → Option (Chomp × Nat × Nat)
  | [] => some (.clip, 0, 0)
  | x :: rest =>
    let chomp? (c : Char) : Option Chomp :=
      if c == '+' then some .keep else if c == '-' then some .strip else none
    let digit? (cs : List Char) : Option Nat :=
      (cs.head?.filter Char.isDigit).map fun c => c.toNat - '0'.toNat
    match chomp? x with
    | some chomp => match digit? rest with
      | some 0 => none
      | some n => some (chomp, n, 2)
      | none => some (chomp, 0, 1)
    | none => match digit? (x :: rest) with
      | some 0 => none
      | some n => match rest.head?.bind chomp? with
        | some chomp => some (chomp, n, 2)
        | none => some (.clip, n, 1)
      | none => some (.clip, 0, 0)

/-- Read empty lines and the indentation of the next one: the line breaks, and the deepest column
reached. With `indent` zero every blank counts as indentation. -/
def readBlockBreaks (indent : Nat) : Nat → List Char → Nat → Cursor →
    Option (List Char × Nat × Cursor)
  | 0, _, _, _ => none
  | fuel + 1, breaks, deepest, c =>
    let spaces := (c.rest.takeWhile (· == ' ')).length
    let c := c.advance (if indent = 0 then spaces else min spaces (indent - c.col))
    let deepest := max deepest c.col
    if (indent = 0 || c.col < indent) && c.looksAt '\t' then none
    else if c.atBreak then
      let (text, below) := c.nextLine
      readBlockBreaks indent fuel (breaks ++ text) deepest below
    else some (breaks, deepest, c)

/-- A block scalar in the making. -/
structure BlockText where
  text : String := ""
  /-- The line break behind the last line. -/
  last : List Char := []
  /-- The line breaks of the empty lines behind that. -/
  more : List Char := []
  /-- The last line starts with a blank. -/
  indented : Bool := false

/-- Read the lines of a block scalar that stand at a column. -/
def readBlockLines (literal : Bool) (indent : Nat) : Nat → BlockText → Cursor →
    Option (BlockText × Cursor)
  | 0, _, _ => none
  | fuel + 1, b, c =>
    if c.col ≠ indent || c.atEnd then some (b, c)
    else do
      let folds := !literal && !b.indented && !c.atBlank && b.last.head? == some '\n'
      let joint := if folds then (if b.more.isEmpty then " " else "") else String.ofList b.last
      let line := c.rest.takeWhile fun x => !isBreak x
      let (last, below) := (c.advance line.length).nextLine
      let (more, _, after) ← readBlockBreaks indent (below.total + 1) [] 0 below
      readBlockLines literal indent fuel
        { text := b.text ++ joint ++ String.ofList b.more ++ String.ofList line
          last, more, indented := c.atBlank } after

/-- Read a block scalar behind the mark that starts it. The block collection around it, if there is
one, stands at the column `outer`. -/
def readBlockScalar (literal : Bool) (outer : Option Nat) (c : Cursor) :
    Option (String × Cursor) := do
  let (chomp, increment, length) ← blockMarks c.rest
  let c := (c.advance length).skipWhile isBlank
  let c := if c.looksAt '#' then c.skipWhile fun x => !isBreak x else c
  guard (c.atEnd || c.atBreak)
  let c := c.nextLine.2
  let given := if increment = 0 then 0 else outer.getD 0 + increment
  let (more, deepest, c) ← readBlockBreaks given (c.total + 1) [] 0 c
  let least := match outer with
    | some col => col + 1
    | none => 1
  let indent := if given = 0 then max deepest least else given
  let (b, c) ← readBlockLines literal indent (c.total + 1) { more } c
  let tail := match chomp with
    | .strip => []
    | .clip => b.last
    | .keep => b.last ++ b.more
  return (b.text ++ String.ofList tail, c)

end Tangent.Yaml
