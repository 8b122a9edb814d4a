/-!
# Scripts

A script is a command. Commands are built from simple ones, which are words with assignments and
redirections; words are built from pieces, some of which are replaced when the command runs.
-/

namespace Tangent.Shell

/-- What is done with the value of a parameter. -/
inductive Use
  | plain
  | length
  /-- Another word stands for a missing value. -/
  | default
  /-- Another word becomes the value if it is missing. -/
  | assign
  /-- A missing value is an error. -/
  | demand
  /-- Another word stands for a value that is not missing. -/
  | alternative
  /-- A pattern is cut off at the front. -/
  | cutFront (longest : Bool)
  /-- A pattern is cut off at the back. -/
  | cutBack (longest : Bool)
  | unreadable
deriving DecidableEq

/-- How a channel is redirected. -/
inductive Route
  | write | append | read | copy
  /-- Write even a file that is to be kept. -/
  | overwrite
  /-- The target is the input itself. -/
  | here
deriving DecidableEq

mutual

/-- A part of a word. In quotes a value is neither split nor read as a pattern. -/
inductive Piece
  | text (text : String) (quoted : Bool)
  /-- The value of a parameter; where `emptyToo` holds, an empty value is missing. -/
  | value (name : String) (use : Use) (emptyToo : Bool) (word : List Piece) (quoted : Bool)
  /-- The value of an expression. -/
  | sum (expression : List Piece) (quoted : Bool)
  /-- The output of a command. -/
  | output (command : Command) (quoted : Bool)

inductive Redirect
  | mk (channel : Nat) (route : Route) (target : List Piece)

inductive Command
  | nothing
  | simple (line : Nat) (assignments : List (String × List Piece)) (words : List (List Piece))
      (redirects : List Redirect)
  | redirected (command : Command) (redirects : List Redirect)
  | sequence (first second : Command)
  /-- The second runs after a success of the first. -/
  | both (first second : Command)
  /-- The second runs after a failure of the first. -/
  | either (first second : Command)
  | negation (command : Command)
  | pipe (first second : Command)
  | background (command : Command)
  | subshell (command : Command)
  | choice (condition yes no : Command)
  /-- The body runs as long as the condition ends as wanted. -/
  | loop (wanted : Bool) (condition body : Command)
  /-- The body runs for each word, or for each argument if there are no words. -/
  | each (name : String) (words : Option (List (List Piece))) (body : Command)
  | cases (word : List Piece) (arms : List (List (List Piece) × Command))
  | define (name : String) (line : Nat) (body : Command)

end

abbrev Word := List Piece

/-- The text of a word that is written without quotes and has nothing to be replaced. -/
def Word.bare? : Word → Option String
  | [.text s false] => some s
  | _ => none

def isNameStart (c : Char) : Bool :=
  ('a' ≤ c && c ≤ 'z') || ('A' ≤ c && c ≤ 'Z') || c == '_'

def isNameChar (c : Char) : Bool :=
  isNameStart c || c.isDigit

/-- A name of a variable or of a function. -/
def isName (s : String) : Bool :=
  match s.toList with
  | c :: cs => isNameStart c && cs.all isNameChar
  | [] => false

end Tangent.Shell
