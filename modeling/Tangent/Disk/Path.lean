/-!
# Paths

A path is a list of names from the root or from the working directory. In its text the names are
separated by slashes; empty names and `.` mean nothing, and `..` undoes the name before it.
-/

namespace Tangent

structure Path where
  /-- The path starts at the root. -/
  absolute : Bool
  parts : List String
deriving DecidableEq

namespace Path

/-- The name that means the directory above. -/
def above : String := ".."

/-- The directory that a path stands in. Nothing is above the root. -/
def parent (p : Path) : Path :=
  if p.parts.all (· == above) then
    if p.absolute then p else { p with parts := p.parts ++ [above] }
  else { p with parts := p.parts.dropLast }

/-- Follow one name. -/
def step (p : Path) (name : String) : Path :=
  if name = "" || name = "." then p
  else if name = above then p.parent
  else { p with parts := p.parts ++ [name] }

/-- Where the walk along a text starts. -/
def start (text : String) : Path :=
  { absolute := text.startsWith "/", parts := [] }

/-- The names in a text. -/
def names (text : String) : List String :=
  text.splitOn "/"

/-- The path of a text, in its shortest form. -/
def ofText (text : String) : Path :=
  (names text).foldl step (start text)

def text (p : Path) : String :=
  let names := String.intercalate "/" p.parts
  if p.absolute then "/" ++ names else if p.parts.isEmpty then "." else names

/-- The text of the path of a name in a directory. -/
def join (dir name : String) : String :=
  (ofText (if dir = "" then name else dir ++ "/" ++ name)).text

/-- The last name in a text. -/
def base (text : String) : String :=
  match ((names text).filter (· ≠ "")).getLast? with
  | some name => name
  | none => if text = "" then "." else "/"

/-- A name without what follows its last dot. -/
def withoutSuffix (name : String) : String :=
  let cs := name.toList
  if cs.contains '.' then String.ofList ((cs.reverse.dropWhile (· ≠ '.')).drop 1).reverse else name

/-- The directory `p`, or something in it. -/
def contains (p q : Path) : Bool :=
  p.absolute == q.absolute && p.parts.isPrefixOf q.parts

end Path

end Tangent
