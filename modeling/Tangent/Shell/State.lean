import Tangent.Disk.Basic
import Tangent.Shell.Script

/-!
# The state of a script

A script works on a disk, from a directory of it. It has variables, functions and arguments, and
channels that lead into buffers or files. A step of it may lead out of what is being run.
-/

namespace Tangent.Shell

/-- Where the output of a channel goes. -/
inductive Sink
  | buffer (number : Nat)
  | file (path : String)
  | dropped
  | closed

structure Variable where
  name : String
  /-- The value; a variable without one may still be exported. -/
  value : Option String
  exported : Bool := false
  fixed : Bool := false

/-- A command that was run in the background. -/
structure Job where
  number : Nat
  status : Nat
  /-- It would still be sleeping. -/
  sleeps : Bool := false
  /-- The signal that ended it. -/
  signal : Option Nat := none

/-- What every shell knows at its start. -/
def firstBindings : List Variable :=
  [{ name := "OPTIND", value := some "1" }, { name := "IFS", value := some " \t\n" },
    { name := "PS2", value := some "> " }, { name := "PS4", value := some "+ " },
    { name := "PATH"
      value := some "/usr/local/sbin:/usr/local/bin:/usr/sbin:/usr/bin:/sbin:/bin" }]

/-- The path of the working directory from the root, as far as a script can tell. -/
def workFolder : String := "/tmp/work"

/-- What the first shell is given. -/
def givenBindings : List Variable :=
  (firstBindings.filter (·.name = "PATH")).map ({ · with exported := true })
    ++ [{ name := "PWD", value := some workFolder, exported := true }]

structure State where
  disk : Disk
  dir : String
  /-- The name of the script. -/
  name : String
  args : List String
  bindings : List Variable := firstBindings
  functions : List (String × Nat × Command) := []
  /-- The number of functions around the command. -/
  calls : Nat := 0
  aliases : List (String × String) := []
  /-- The files that may be run. -/
  runnable : List Path := []
  status : Nat := 0
  /-- The status of the last command whose output was taken into a word. -/
  answer : Nat := 0
  /-- The line that is being run, and the line from which those of a function are counted. -/
  line : Nat := 1
  base : Nat := 1
  channels : List (Nat × Sink) := [(1, .buffer 0), (2, .buffer 0)]
  buffers : List String := [""]
  input : String := ""
  /-- The variables that a function has to give back when it ends. -/
  saved : List (String × Option Variable) := []
  /-- The letters of the options that are set. -/
  options : List Char := []
  /-- What is run at a signal; signal 0 is the end of the script. -/
  traps : List (Nat × String) := []
  /-- What is still to be run because of signals. -/
  pending : List String := []
  /-- The number of loops around the command. -/
  loops : Nat := 0
  /-- The command is in a condition, so its failure does not end the script. -/
  tested : Bool := false
  /-- The number of shells around this one. -/
  depth : Nat := 0
  /-- The command whose name stands in messages. -/
  command : Option String := none
  /-- The number of the argument with which the search for options goes on, and the place in the one
  before it if that is not finished. -/
  nextOption : Nat := 1
  optionPlace : Option Nat := none
  /-- The commands that were run in the background, the latest first. -/
  jobs : List Job := []
  /-- A program has slept. -/
  slept : Bool := false
  /-- What files are not made with. -/
  mask : Nat := 18

/-- How a step leads out of what is being run. -/
inductive Jump
  | exit
  | killed (signal : Nat)
  | back
  | leaveLoops (n : Nat)
  | nextRound (n : Nat)
  /-- A fault of a command of the shell itself. -/
  | fault

abbrev Run := ExceptT Jump (StateM State)

/-! ## Output -/

/-- A name as seen from the working directory of the first shell. -/
def State.path (s : State) (name : String) : String :=
  if name.isEmpty then name
  else if name.startsWith (workFolder ++ "/") || name = workFolder then
    Path.join "." (String.ofList (name.toList.drop (workFolder.length + 1)))
  else if name.startsWith "/" then name
  else Path.join s.dir name

/-- The path from the root of a folder. -/
def fromRoot (dir : String) : String :=
  if dir.startsWith "/" then (Path.ofText dir).text else Path.join workFolder dir

/-- A name leads to a file that may be run. -/
def State.mayRun (s : State) (name : String) : Bool :=
  match s.disk.locate (s.path name) with
  | .ok p => s.runnable.contains p
  | .error _ => false

/-- Print a text to a sink. -/
def State.deliver (s : State) (text : String) : Sink → State
  | .buffer n => { s with buffers := s.buffers.modify n (· ++ text) }
  | .file path =>
    match s.disk.write path ((s.disk.content? path).getD "" ++ text) with
    | .ok disk => { s with disk }
    | .error _ => s
  | .dropped | .closed => s

/-- Print a text to a channel. -/
def print (channel : Nat) (text : String) : Run Unit :=
  modify fun s => s.deliver text ((s.channels.lookup channel).getD .closed)

/-- Print a message of a program. -/
def tell (text : String) : Run Unit :=
  print 2 (text ++ "\n")

/-- Print a message of the shell. -/
def complain (text : String) : Run Unit := do
  let s ← get
  let command := match s.command with
    | some c => c ++ ": "
    | none => ""
  tell (s.name ++ ": " ++ toString s.line ++ ": " ++ command ++ text)

/-- A message of the shell, with which its command ends. -/
def fault {α : Type} (text : String) : Run α := do
  complain text
  modify fun s => { s with status := 2 }
  throw .fault

/-- Leave the script with a status. -/
def exitWith {α : Type} (status : Nat) : Run α := do
  modify fun s => { s with status }
  throw .exit

/-! ## Variables -/

def State.value? (s : State) (name : String) : Option String :=
  (s.bindings.find? (·.name = name)).bind (·.value)

def State.setVariable (s : State) (v : Variable) : State :=
  { s with bindings := v :: s.bindings.filter (·.name ≠ v.name) }

/-- Start the search for options again. -/
def State.restartOptions (s : State) (n : Nat) : State :=
  { s with nextOption := n, optionPlace := none }

/-- The number of the argument at which options are looked for, as it is assigned. -/
def optionNumber (value : String) : Run Nat :=
  match value.toNat? with
  | some n => return max n 1
  | none => fault ("Illegal number: " ++ value)

/-- Give a variable a value. -/
def assign (name value : String) : Run Unit := do
  if name = "OPTIND" then
    let n ← optionNumber value
    modify (·.restartOptions n)
  let s ← get
  match s.bindings.find? (·.name = name) with
  | some v =>
    if v.fixed then fault (name ++ ": is read only")
    else set (s.setVariable { v with value := some value })
  | none => set (s.setVariable { name, value := some value, exported := s.options.contains 'a' })

/-- A text in single quotes, where quotes that stand inside are in double ones. -/
def quoted : Nat → List Char → String
  | 0, _ => ""
  | fuel + 1, cs =>
    let plain := cs.takeWhile (· != '\'')
    let rest := cs.drop plain.length
    let marks := rest.takeWhile (· == '\'')
    let rest := rest.drop marks.length
    "'" ++ String.ofList plain ++ "'"
      ++ (if marks.isEmpty then "" else "\"" ++ String.ofList marks ++ "\"")
      ++ (if rest.isEmpty then "" else quoted fuel rest)

/-- A text as it may be written in a script. -/
def quote (text : String) : String :=
  quoted (text.length + 1) text.toList

/-- The options by their names. Two of them have no letter of their own. -/
def optionNames : List (String × Char) :=
  [("errexit", 'e'), ("noglob", 'f'), ("ignoreeof", 'I'), ("interactive", 'i'), ("monitor", 'm'),
    ("noexec", 'n'), ("stdin", 's'), ("xtrace", 'x'), ("verbose", 'v'), ("vi", 'V'), ("emacs", 'E'),
    ("noclobber", 'C'), ("allexport", 'a'), ("notify", 'b'), ("nounset", 'u'), ("privileged", 'p'),
    ("nolog", '\x01'), ("debug", '\x02')]

/-- The letters of the options that are set. -/
def State.optionLetters (s : State) : String :=
  let letters := (optionNames.map (·.2)).reverse
  String.ofList (letters.filter fun c => c.isAlpha && s.options.contains c)

/-- The number of the process. -/
def State.process (s : State) : String :=
  toString (1000 + s.depth)

/-- The value of a parameter that is not a row of arguments. -/
def State.parameter? (s : State) (name : String) : Option String :=
  match name with
  | "?" => some (toString s.status)
  | "$" => some s.process
  | "#" => some (toString s.args.length)
  | "-" => some s.optionLetters
  | "!" => s.jobs.head?.map fun job => toString job.number
  | "0" => some s.name
  | _ => match name.toNat? with
    | some n => s.args[n - 1]?
    | none => s.value? name

/-- The characters at which values are split. -/
def State.separators (s : State) : List Char :=
  ((s.value? "IFS").getD " \t\n").toList

end Tangent.Shell
