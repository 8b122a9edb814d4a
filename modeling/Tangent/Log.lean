import Tangent.Decimal.Text
import Tangent.Text.Quoted

/-!
# Log records

A record has a level, the name of the logger that wrote it, a message and a list of fields. On
its line the level stands first, in brackets, and each field as its name, an equals sign and its
value; a value with a character outside the range from `-` to `~` is quoted. A value of several
lines stands on lines of its own, each after a bar.
-/

namespace Tangent.Log

inductive Level
  | debug | info
deriving DecidableEq

def Level.text : Level → String
  | debug => "[DEBUG] "
  | info => "[INFO]  "

inductive Value
  | text (s : String)
  | number (n : Int)
  | real (v : Float)
  | flag (b : Bool)

/-- How one character is written in a value that is not written as it is. A quote and a backslash
stand for themselves. -/
def escape (c : Char) : String :=
  if Text.isPrintable c then String.singleton c
  else if c = '\x7f' then "\\u007f"
  else Text.escape c

def escapeText (s : String) : String :=
  String.join (s.toList.map escape)

/-- A value with an unusual character is quoted, and so is the empty one. -/
def protect (s : String) : String :=
  if s.isEmpty || s.toList.any (fun c => c < '-' || '~' < c) then
    "\"" ++ String.join (s.toList.map fun c => if c = '"' then "\\\"" else escape c) ++ "\""
  else s

/-- The lines of a text; a break at its end starts no new one. -/
def linesOf (s : String) : List String :=
  let lines := s.splitOn "\n"
  if lines.getLast? == some "" then lines.dropLast else lines

/-- The text of a value, as it is. -/
def Value.plain : Value → String
  | text s => s
  | number n => toString n
  | real v => Decimal.general v
  | flag b => toString b

/-- A field with the blank or the line break in front of it. -/
def writeField (name : String) (v : Value) : String :=
  if v.plain.contains '\n' then
    "\n  " ++ name ++ "=\n"
      ++ String.join ((linesOf v.plain).map fun l => "  | " ++ escapeText l ++ "\n") ++ "  "
  else " " ++ name ++ "=" ++ match v with
    | .number _ | .flag _ => v.plain
    | .text _ | .real _ => protect v.plain

structure Record where
  level : Level
  /-- The name of the logger; empty for a logger without a name. -/
  logger : String
  message : String
  fields : List (String × Value)

def Record.render (r : Record) : String :=
  r.level.text ++ (if r.logger.isEmpty then "" else r.logger ++ ": ") ++ r.message
    ++ (if r.fields.isEmpty then "" else ":")
    ++ String.join (r.fields.map fun (name, value) => writeField name value)

/-- The lines of a record. -/
def Record.lines (r : Record) : List String :=
  r.render.splitOn "\n"

/-- The name of a logger below another. -/
def named (parent name : String) : String :=
  if parent.isEmpty then name else parent ++ "." ++ name

end Tangent.Log
