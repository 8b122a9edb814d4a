/-!
# Places in a text

A cursor is what is left of a text, with the line and the column at which it starts and the number
of characters before it. It knows the length of the whole text, which bounds every walk from there.
-/

namespace Tangent.Yaml

def isBlank (c : Char) : Bool :=
  c == ' ' || c == '\t'

/-- The separators of lines and of paragraphs are line breaks as well. -/
def isBreak (c : Char) : Bool :=
  c == '\n' || c == '\r' || c == '\u0085' || c == '\u2028' || c == '\u2029'

/-- A blank, a line break or the end of the text follows. -/
def endsWord : List Char → Bool
  | [] => true
  | c :: _ => isBlank c || isBreak c

structure Cursor where
  rest : List Char
  line : Nat := 0
  col : Nat := 0
  index : Nat := 0
  /-- The number of characters of the whole text. -/
  total : Nat := rest.length

namespace Cursor

def looksAt (c : Cursor) (x : Char) : Bool :=
  c.rest.head? == some x

def atEnd (c : Cursor) : Bool :=
  c.rest.isEmpty

def atBlank (c : Cursor) : Bool :=
  c.rest.head?.any isBlank

def atBreak (c : Cursor) : Bool :=
  c.rest.head?.any isBreak

/-- A line of three given marks starts here. -/
def atMarks (c : Cursor) (x : Char) : Bool :=
  c.col == 0 && c.rest.take 3 == [x, x, x] && endsWord (c.rest.drop 3)

/-- A line that separates documents starts here. -/
def atDocumentMark (c : Cursor) : Bool :=
  c.atMarks '-' || c.atMarks '.'

/-- Move over characters that are not line breaks. -/
def advance (c : Cursor) (n : Nat) : Cursor :=
  { c with rest := c.rest.drop n, col := c.col + n, index := c.index + n }

def next (c : Cursor) : Cursor :=
  c.advance 1

/-- Move over all characters of a kind that has no line breaks. -/
def skipWhile (c : Cursor) (p : Char → Bool) : Cursor :=
  c.advance (c.rest.takeWhile p).length

/-- Move over a line break. What is left of it in a text is a line feed, unless it separates lines or
paragraphs. -/
def nextLine (c : Cursor) : List Char × Cursor :=
  let below (rest : List Char) (n : Nat) : Cursor :=
    { c with rest, line := c.line + 1, col := 0, index := c.index + n }
  match c.rest with
  | '\r' :: '\n' :: rest => (['\n'], below rest 2)
  | x :: rest =>
    if x == '\u2028' || x == '\u2029' then ([x], below rest 1)
    else if isBreak x then (['\n'], below rest 1)
    else ([], c)
  | [] => ([], c)

/-- Move over blanks and line breaks. -/
def skipSpace : Nat → Cursor → Cursor
  | 0, c => c
  | fuel + 1, c =>
    if c.atBlank then skipSpace fuel c.next
    else if c.atBreak then skipSpace fuel c.nextLine.2
    else c

/-- Move to the end of a comment, and of the comments on the lines below it. -/
def skipComments : Nat → Cursor → Cursor
  | 0, c => c
  | fuel + 1, c =>
    let stop := c.skipWhile fun x => !isBreak x
    let below := stop.skipSpace stop.total
    if below.looksAt '#' then skipComments fuel below else stop

end Cursor

end Tangent.Yaml
