import Tangent.Disk.Basic

/-!
# Patterns

A pattern is a row of characters, some of which are literal: those that were quoted. In a pattern
`*` stands for any text, `?` for any character, and brackets for one of several.
-/

namespace Tangent.Shell

/-- Characters with whether they are literal. -/
abbrev Glob := List (Char × Bool)

namespace Glob

def ofText (text : String) (literal : Bool) : Glob :=
  text.toList.map (·, literal)

def text (g : Glob) : String :=
  String.ofList (g.map (·.1))

/-- The pattern may match other texts than its own. -/
def isActive (g : Glob) : Bool :=
  g.any fun (c, literal) => !literal && (c == '*' || c == '?' || c == '[')

/-- The characters of a class. -/
def inClass (name : String) (c : Char) : Bool :=
  match name with
  | "alpha" => c.isAlpha
  | "digit" => c.isDigit
  | "alnum" => c.isAlphanum
  | "upper" => c.isUpper
  | "lower" => c.isLower
  | "space" => c.isWhitespace
  | "blank" => c == ' ' || c == '\t'
  | "xdigit" => c.isDigit || ('a' ≤ c && c ≤ 'f') || ('A' ≤ c && c ≤ 'F')
  | "punct" => '!' ≤ c && c ≤ '~' && !c.isAlphanum
  | _ => false

/-- Whether a character is among those in brackets, and the pattern behind them; none if the
brackets are not closed. -/
def bracket? (c : Char) (found first : Bool) : Nat → Glob → Option (Bool × Glob)
  | 0, _ => none
  | _, [] => none
  | fuel + 1, (d, literal) :: rest =>
    if d == ']' && !literal && !first then some (found, rest)
    else
      let body := rest.map (·.1)
      if d == '[' && !literal && body.head? == some ':' then
        let name := (body.drop 1).takeWhile (· != ':')
        if (body.drop (name.length + 1)).take 2 == [':', ']'] then
          bracket? c (found || inClass (String.ofList name) c) false fuel (rest.drop (name.length + 3))
        else bracket? c (found || c == d) false fuel rest
      else match rest with
        | ('-', false) :: (e, closes) :: rest' =>
          if e == ']' && !closes then bracket? c (found || c == d) false fuel rest
          else bracket? c (found || (d ≤ c && c ≤ e)) false fuel rest'
        | _ => bracket? c (found || c == d) false fuel rest

/-- A text matches a pattern. -/
def matchesChars : Nat → Glob → List Char → Bool
  | 0, _, _ => false
  | _, [], cs => cs.isEmpty
  | fuel + 1, (p, literal) :: rest, cs =>
    if !literal && p == '*' then
      matchesChars fuel rest cs ||
        match cs with
        | [] => false
        | _ :: cs => matchesChars fuel ((p, literal) :: rest) cs
    else match cs with
      | [] => false
      | c :: cs =>
        if !literal && p == '?' then matchesChars fuel rest cs
        else if !literal && p == '[' then
          let negated := rest.head? == some ('!', false)
          let body := if negated then rest.drop 1 else rest
          match bracket? c false true (body.length + 1) body with
          | some (found, after) => found != negated && matchesChars fuel after cs
          | none => p == c && matchesChars fuel rest cs
        else p == c && matchesChars fuel rest cs

def fits (g : Glob) (text : String) : Bool :=
  matchesChars (g.length + text.length + 1) g text.toList

/-! ## Names on a disk -/

/-- Split a pattern at its slashes. -/
def split (g : Glob) : List Glob :=
  g.foldr (fun x parts => if x.1 == '/' then [] :: parts else
    match parts with
    | part :: parts => (x :: part) :: parts
    | [] => [[x]]) [[]]

/-- The paths that match the parts of a pattern, with the texts that lead to them. -/
def expandParts (d : Disk) : List (String × String) → List Glob → List (String × String)
  | found, [] => found
  | found, part :: rest =>
    let next := found.flatMap fun (shown, path) =>
      let names :=
        if part.isActive then
          match d.look path, d.locate path with
          | .ok .folder, .ok folder =>
            ("." :: ".." :: d.names folder).filter fun name =>
              part.fits name && (!name.startsWith "." || part.head?.map (·.1) == some '.')
          | _, _ => []
        else [part.text]
      names.map fun name => (shown ++ name, path ++ "/" ++ name)
    if rest.isEmpty then expandParts d next rest
    else expandParts d (next.map fun (shown, path) => (shown ++ "/", path)) rest

/-- The paths that match a pattern, as seen from a directory; the pattern itself if there are
none. -/
def expand (d : Disk) (dir : String) (g : Glob) : List String :=
  if !g.isActive then [g.text]
  else
    let start := if g.head?.map (·.1) == some '/' then "" else dir
    match (expandParts d [("", start)] g.split).filter fun (_, path) => (d.look path).isOk with
    | [] => [g.text]
    | found => found.map (·.1)

end Glob

end Tangent.Shell
