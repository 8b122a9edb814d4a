/-!
# Words of a command line

Words are separated by blanks. In single quotes every character stands for itself; in double quotes
and without quotes a backslash takes the character after it as it is. An operator of the shell
outside quotes ends the line. A stretch from `$(` to `)` or between back quotes belongs to one
word.
-/

namespace Tangent.Toolchain

/-- A word in the making, and the words before it. -/
structure Words where
  done : List String := []
  word : List Char := []
  /-- The word counts, even if it is empty. -/
  started : Bool := false
  escaped : Bool := false
  single : Bool := false
  double : Bool := false
  back : Bool := false
  dollar : Bool := false

namespace Words

/-- Nothing is open. -/
def isClosed (w : Words) : Bool :=
  !(w.escaped || w.single || w.double || w.back || w.dollar)

/-- Put a character into the word. -/
def push (w : Words) (c : Char) : Words :=
  { w with word := w.word ++ [c], started := true }

/-- End the word. -/
def finish (w : Words) : Words :=
  if w.started then { w with done := w.done ++ [String.ofList w.word], word := [], started := false }
  else w

def isBlank (c : Char) : Bool :=
  c == ' ' || c == '\t' || c == '\r' || c == '\n'

def isOperator (c : Char) : Bool :=
  c == ';' || c == '&' || c == '|' || c == '<' || c == '>'

/-- The end of the line at an operator. A number before `>` belongs to the operator. -/
def atOperator (w : Words) (c : Char) : Words :=
  if c == '>' && (w.word.head?.any Char.isDigit) then { w with started := false } else w

/-- One character that is neither escaped nor an operator. -/
def step (w : Words) (c : Char) : Option Words :=
  let bare := !w.single && !w.double
  if c == '\\' then
    some (if w.single then { w with word := w.word ++ [c] } else { w with escaped := true })
  else if isBlank c then
    some (if w.isClosed then w.finish else { w with word := w.word ++ [c] })
  else if c == '\x60' && bare && !w.dollar then some ({ w with back := !w.back }.push c)
  else if c == ')' && bare && !w.back then some ({ w with dollar := !w.dollar }.push c)
  else if c == '(' && bare && !w.back then
    if !w.dollar && w.word.getLast? == some '$' then
      some { w with dollar := true, word := w.word ++ [c] }
    else none
  else if c == '"' && !w.single && !w.dollar then
    some { w with double := !w.double, started := w.started || w.double }
  else if c == '\'' && !w.double && !w.dollar then
    some { w with single := !w.single, started := w.started || w.single }
  else some (w.push c)

/-- Read a line up to its end or to an operator. -/
def read (w : Words) : List Char → Option Words
  | [] => some w
  | c :: rest =>
    if w.escaped then ({ w with escaped := false }.push c).read rest
    else if isOperator c && w.isClosed then some (w.atOperator c)
    else match w.step c with
      | some w => w.read rest
      | none => none

end Words

/-- The words of a line; none if something is left open. -/
def words? (line : String) : Option (List String) := do
  let w ← ({} : Words).read line.toList
  if w.isClosed then some w.finish.done else none

end Tangent.Toolchain
