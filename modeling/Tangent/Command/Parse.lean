import Tangent.Command.Flag

/-!
# Reading the command line

Flags and operands may be mixed; two dashes alone end the flags. A flag takes its value after an
equals sign, from the rest of its group of letters, or from the next argument.
-/

namespace Tangent.Command

/-- What was read of the arguments so far. -/
structure Parsing where
  settings : Settings := {}
  operands : List String := []
  /-- A flag that waits for its value, and what is wrong if there is none. -/
  waiting : Option (Flag × Issue) := none
  /-- All further arguments are operands. -/
  flagsEnded : Bool := false

namespace Parsing

def set (p : Parsing) (f : Flag) (value : String) : Result Parsing :=
  return { p with settings := ← p.settings.put f value, waiting := none }

/-- Read a flag with two dashes. -/
def long (flags : List Flag) (p : Parsing) (arg : String) : Result Parsing :=
  let body := (arg.toList.drop 2)
  let name := String.ofList (body.takeWhile (· ≠ '='))
  if name = "" || name.startsWith "-" then .issue (.badFlag arg)
  else match flags.find? (·.long = name) with
    | none => .issue (.unknownFlag name)
    | some f =>
      if body.contains '=' then
        p.set f (String.ofList ((body.dropWhile (· ≠ '=')).drop 1))
      else if f.isSwitch then p.set f "true"
      else .ok { p with waiting := some (f, .noFlagValue arg) }

/-- The first byte of a character, as a character. -/
def firstByte (c : Char) : Char :=
  Char.ofNat ((String.singleton c).toUTF8.data.getD 0 0).toNat

/-- The rest of a group is for tests of the program, which means nothing here. -/
def isForTests (group : List Char) : Bool :=
  "test.".toList.isPrefixOf group

/-- Read a group of letters. -/
def letters (flags : List Flag) (p : Parsing) : List Char → Result Parsing
  | [] => .ok p
  | c :: rest =>
    if isForTests (c :: rest) then .ok p
    else match flags.find? (·.letter? = some c) with
    | none => .issue (.unknownLetter (firstByte c) (String.ofList (c :: rest)))
    | some f =>
      match rest with
      | '=' :: d :: more => p.set f (String.ofList (d :: more))
      | rest =>
        if f.isSwitch then do
          let p ← p.set f "true"
          p.letters flags rest
        else if rest.isEmpty then
          .ok { p with waiting := some (f, .noLetterValue c (String.singleton c)) }
        else p.set f (String.ofList rest)

/-- Read one argument. -/
def argument (flags : List Flag) (p : Parsing) (arg : String) : Result Parsing :=
  match p.waiting with
  | some (f, _) => p.set f arg
  | none =>
    if p.flagsEnded || !arg.startsWith "-" || arg = "-" then
      .ok { p with operands := p.operands ++ [arg] }
    else if arg = "--" then .ok { p with flagsEnded := true }
    else if arg.startsWith "--" then p.long flags arg
    else p.letters flags (arg.toList.drop 1)

end Parsing

/-- The settings and the operands that arguments give. -/
def parse (flags : List Flag) (args : List String) : Result (Settings × List String) := do
  let p ← args.foldlM (Parsing.argument flags) {}
  match p.waiting with
  | some (_, issue) => .issue issue
  | none => return (p.settings, p.operands)

/-! ## Finding the command -/

/-- The argument looks like a flag whose value is the next argument. Unknown flags do. -/
def takesNext (flags : List Flag) (arg : String) : Bool :=
  if arg.contains '=' then false
  else if arg.startsWith "--" then
    !flags.any fun f => f.isSwitch && "--" ++ f.long = arg
  else if arg.startsWith "-" && arg.utf8ByteSize == 2 then
    !flags.any fun f => f.isSwitch && f.letter?.any fun c => "-" ++ String.singleton c = arg
  else false

/-- The first argument that is neither a flag nor the value of one. A flag takes the next argument
only if something follows that. -/
def firstWord? (flags : List Flag) : List String → Option String
  | [] => none
  | arg :: rest =>
    if arg = "--" then none
    else if takesNext flags arg then
      match rest with
      | _ :: next :: more => firstWord? flags (next :: more)
      | _ => none
    else if arg ≠ "" && !arg.startsWith "-" then some arg
    else firstWord? flags rest

/-- The arguments without the word that names the command. -/
def withoutWord (flags : List Flag) (word : String) : List String → List String
  | [] => []
  | arg :: rest =>
    if arg = "--" then arg :: rest
    else if takesNext flags arg then
      match rest with
      | value :: rest => arg :: value :: withoutWord flags word rest
      | [] => [arg]
    else if arg = word then rest
    else arg :: withoutWord flags word rest

/-! ## Suggestions -/

/-- The small letters of those letters whose small ones have another number of bytes. -/
def smallLetters : List (Char × Char) :=
  [('İ', 'i'), ('\u212a', 'k'), ('\u212b', 'å'), ('\u2126', 'ω'), ('ẞ', 'ß')]

/-- A word in small letters, as far as that changes how it is compared. -/
def small (word : String) : String :=
  word.map fun c => (smallLetters.lookup c).getD c.toLower

/-- One row of the table of distances: the distances of all beginnings of the second word from the
beginning of the first one that ends in `b`. -/
def distanceRow (b : UInt8) (word : List UInt8) (above : List Nat) : List Nat :=
  let first := above.headD 0 + 1
  let cells := (word.zip (above.zip (above.drop 1))).foldl
    (fun (row : List Nat) (d, diagonal, up) =>
      row ++ [min (min (up + 1) (row.getLastD 0 + 1)) (diagonal + if b = d then 0 else 1)]) [first]
  cells

/-- The number of insertions, deletions and replacements of bytes between two words. -/
def distance (x y : String) : Nat :=
  let (x, y) := (Text.bytes x, Text.bytes y)
  (x.foldl (fun row b => distanceRow b y row) (List.range (y.length + 1))).getLastD 0

/-- The commands that a word may have meant. -/
def suggestions (word : String) : List String :=
  let word := small word
  ["ops", "generate", "compile", "completion"].filter fun name =>
    distance word name ≤ 2 || name.startsWith word

end Tangent.Command
