import Tangent.Command.Items
import Tangent.Error.Basic

/-!
# Flags of the command line
-/

namespace Tangent.Command

inductive Flag
  | verbose | config | name | out | function | toolchain | help
deriving DecidableEq

/-- The commands. -/
inductive Verb
  | ops | generate | compile
deriving DecidableEq

/-- What the flags are set to. -/
structure Settings where
  verbose : Bool := false
  config : String := ""
  name : String := ""
  out : String := ""
  functions : List String := []
  toolchain : String := "gcc -O2 -fPIC"
  help : Bool := false

namespace Flag

/-- The name after two dashes. -/
def long : Flag → String
  | verbose => "verbose"
  | config => "config"
  | name => "name"
  | out => "out"
  | function => "function"
  | toolchain => "toolchain"
  | help => "help"

/-- The letter after one dash. -/
def letter? : Flag → Option Char
  | verbose => some 'v'
  | out => some 'o'
  | function => some 'f'
  | help => some 'h'
  | _ => none

/-- A switch needs no value. -/
def isSwitch (f : Flag) : Bool :=
  f = verbose || f = help

/-- How error messages call a flag. -/
def title (f : Flag) : String :=
  match f.letter? with
  | some c => "-" ++ String.singleton c ++ ", --" ++ f.long
  | none => "--" ++ f.long

end Flag

/-- The flags that every command has. -/
def globalFlags : List Flag := [.config, .name, .verbose]

namespace Verb

def all : List Verb := [.ops, .generate, .compile]

def name : Verb → String
  | ops => "ops"
  | generate => "generate"
  | compile => "compile"

def ofName? (name : String) : Option Verb :=
  all.find? (·.name = name)

/-- The flags of one command. -/
def ownFlags : Verb → List Flag
  | ops => [.help]
  | generate => [.function, .help, .out]
  | compile => [.function, .help, .out, .toolchain]

end Verb

/-! ## Values -/

/-- A truth value. -/
def truth? (value : String) : Option Bool :=
  if value ∈ ["1", "t", "T", "TRUE", "true", "True"] then some true
  else if value ∈ ["0", "f", "F", "FALSE", "false", "False"] then some false
  else none

/-- Set a flag to a value. A list grows. -/
def Settings.put (s : Settings) (f : Flag) (value : String) : Result Settings :=
  let refuse (reason : String) : Result Settings := .issue (.badFlagValue value f.title reason)
  let truth (use : Bool → Settings) : Result Settings :=
    match truth? value with
    | some b => .ok (use b)
    | none => refuse ("strconv.ParseBool: parsing " ++ Text.quote value ++ ": invalid syntax")
  match f with
  | .verbose => truth fun b => { s with verbose := b }
  | .help => truth fun b => { s with help := b }
  | .config => .ok { s with config := value }
  | .name => .ok { s with name := value }
  | .out => .ok { s with out := value }
  | .toolchain => .ok { s with toolchain := value }
  | .function =>
    match items value with
    | .ok names => .ok { s with functions := s.functions ++ names }
    | .error reason => refuse reason

end Tangent.Command
