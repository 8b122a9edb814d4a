import Tangent.Shell.Arithmetic
import Tangent.Shell.Glob

/-!
# Expansion

The pieces of a word are replaced by their values. What comes out is split into fields at the
separators that were not quoted, and a field with a pattern stands for the paths that match it.
-/

namespace Tangent.Shell

/-- A part of what a word expands to. -/
inductive Bit
  /-- A character, literal if it was quoted, that may separate fields if it comes from a value. -/
  | char (c : Char) (literal splits : Bool)
  /-- A quoted part: the field counts, even if it is empty. -/
  | mark
  /-- The boundary between two arguments. -/
  | gap

/-- The characters of a value. -/
def valueBits (text : String) (quoted : Bool) : List Bit :=
  let chars := text.toList.map fun c => Bit.char c quoted (!quoted)
  if quoted then .mark :: chars else chars

/-- The arguments as fields of their own. -/
def argumentBits (args : List String) (quoted : Bool) : List Bit :=
  (args.map fun a => valueBits a quoted).intersperse [.gap] |>.flatten

/-- The text that bits stand for, with a blank at each gap. -/
def textOf (bits : List Bit) : String :=
  String.ofList (bits.filterMap fun
    | .char c _ _ => some c
    | .mark => none
    | .gap => some ' ')

/-- The pattern that bits stand for. -/
def globOf (bits : List Bit) : Glob :=
  bits.filterMap fun
    | .char c literal _ => some (c, literal)
    | .mark => none
    | .gap => some (' ', true)

/-- The shortest or longest front of a text that fits. -/
def cutFront (g : Glob) (longest : Bool) (text : String) : String :=
  let n := text.length
  let lengths := List.range (n + 1)
  let front (k : Nat) := String.ofList (text.toList.take k)
  match (if longest then lengths.reverse else lengths).find? fun k => g.fits (front k) with
  | some k => String.ofList (text.toList.drop k)
  | none => text

/-- The shortest or longest back of a text that fits. -/
def cutBack (g : Glob) (longest : Bool) (text : String) : String :=
  let n := text.length
  let lengths := List.range (n + 1)
  let back (k : Nat) := String.ofList (text.toList.drop k)
  match (if longest then lengths else lengths.reverse).find? fun k => g.fits (back k) with
  | some k => String.ofList (text.toList.take k)
  | none => text

/-- The bits of the value of a parameter; none if it is missing. -/
def parameterBits (name : String) (quoted : Bool) : Run (Option (List Bit)) := do
  let s ← get
  match name with
  | "@" => return if s.args.isEmpty then none else some (argumentBits s.args quoted)
  | "*" =>
    if s.args.isEmpty then return none
    let joint := match s.value? "IFS" with
      | none => " "
      | some separators => String.ofList (separators.toList.take 1)
    return some (if quoted then valueBits (String.intercalate joint s.args) true
      else argumentBits s.args false)
  | _ => return (s.parameter? name).map (valueBits · quoted)

/-- The bits of a word that stands for a value, whose bare characters may separate fields. -/
def splitting (quoted : Bool) (bits : List Bit) : List Bit :=
  if quoted then bits
  else bits.map fun
    | .char c false _ => .char c false true
    | b => b

/-- What a parameter is replaced by, where `word` gives the word that goes with its use. -/
def useParameter (name : String) (use : Use) (emptyToo quoted : Bool) (word : Run (List Bit)) :
    Run (List Bit) := do
  let value ← parameterBits name quoted
  let bits := value.getD []
  let missing := value.isNone || (emptyToo && (textOf bits).isEmpty)
  let strict := value.isNone && (← get).options.contains 'u' && name != "@" && name != "*"
  match use with
  | .unreadable => fault "Bad substitution"
  | .plain =>
    if strict then fault (name ++ ": parameter not set")
    return value.getD (if quoted && name != "@" then [.mark] else [])
  | .length =>
    if strict then fault (name ++ ": parameter not set")
    return valueBits (toString (textOf bits).length) quoted
  | .default =>
    if missing then return splitting quoted (← word) else return bits
  | .alternative =>
    if !missing then return splitting quoted (← word) else return if quoted then [.mark] else []
  | .assign =>
    if !missing then return bits
    let text := textOf (← word)
    if !isName name then fault (name ++ ": bad variable name")
    assign name text
    return valueBits text quoted
  | .demand =>
    if !missing then return bits
    let text := textOf (← word)
    fault (name ++ ": " ++ if !text.isEmpty then text
      else if emptyToo then "parameter not set or null" else "parameter not set")
  | .cutFront longest =>
    return valueBits (cutFront (globOf (← word)) longest (textOf bits)) quoted
  | .cutBack longest =>
    return valueBits (cutBack (globOf (← word)) longest (textOf bits)) quoted

/-- Replace the pieces of a word, where `capture` gives the output of a command. -/
def expandPieces (capture : Command → Run String) : Nat → Word → Run (List Bit)
  | 0, _ => return []
  | _, [] => return []
  | fuel + 1, piece :: rest => do
    let bits ← match piece with
      | .text text quoted =>
        let chars := text.toList.map fun c => Bit.char c quoted false
        pure (if quoted then .mark :: chars else chars)
      | .output command quoted => (valueBits · quoted) <$> capture command
      | .sum expression quoted => do
        let text ← evaluate (textOf (← expandPieces capture fuel expression))
        pure (valueBits text quoted)
      | .value name use emptyToo word quoted =>
        useParameter name use emptyToo quoted (expandPieces capture fuel word)
    return bits ++ (← expandPieces capture fuel rest)

/-- The number of nested pieces that are replaced. -/
def expansionDepth : Nat := 100000

/-! ## Fields -/

/-- The fields that are complete, and the one in the making. -/
structure Fields where
  done : List Glob := []
  field : Glob := []
  started : Bool := false
  /-- The last field was ended by a blank. -/
  spaced : Bool := false

def Fields.finish (f : Fields) : Fields :=
  if f.started then { done := f.done ++ [f.field] } else { f with field := [] }

/-- Put a bit into the fields. -/
def Fields.put (separators : List Char) (f : Fields) : Bit → Fields
  | .mark => { f with started := true }
  | .gap => f.finish
  | .char c literal splits =>
    if splits && separators.contains c then
      if c == ' ' || c == '\t' || c == '\n' then
        if f.started then { f.finish with spaced := true } else f
      else if !f.started && f.spaced then { f with spaced := false }
      else { done := f.done ++ [f.field] }
    else { f with field := f.field ++ [(c, literal)], started := true, spaced := false }

/-- The fields of what a word expands to. -/
def fieldsOf (separators : List Char) (bits : List Bit) : List Glob :=
  (bits.foldl (Fields.put separators) {}).finish.done

/-- A tilde at the front of a word stands for the home of the user. -/
def expandHome (s : State) : Word → Word
  | .text text false :: rest =>
    match text.toList with
    | '~' :: cs =>
      if (cs.isEmpty && rest.isEmpty) || cs.head? == some '/' then
        match s.value? "HOME" with
        | some home => .text home true :: .text (String.ofList cs) false :: rest
        | none => .text text false :: rest
      else .text text false :: rest
    | _ => .text text false :: rest
  | w => w

/-- The fields of words, each a path or a text. -/
def expandWords (capture : Command → Run String) : List Word → Run (List String)
  | [] => return []
  | w :: rest => do
    let bits ← expandPieces capture expansionDepth (expandHome (← get) w)
    let s ← get
    let fields := fieldsOf s.separators bits
    let texts := if s.options.contains 'f' then fields.map Glob.text
      else fields.flatMap (Glob.expand s.disk s.dir)
    return texts ++ (← expandWords capture rest)

/-- A word as one text. -/
def expandText (capture : Command → Run String) (w : Word) : Run String := do
  return textOf (← expandPieces capture expansionDepth (expandHome (← get) w))

/-- A word as a pattern. -/
def expandGlob (capture : Command → Run String) (w : Word) : Run Glob := do
  return globOf (← expandPieces capture expansionDepth w)

end Tangent.Shell
