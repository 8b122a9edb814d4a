import Tangent.Shell.Expansion
import Tangent.Shell.Printing

/-!
# Commands of the shell

The commands that the shell carries out itself, apart from those that run other commands. Each gives
its status.
-/

namespace Tangent.Shell

/-! ## Leaving -/

/-- The status of a command that leaves something: the argument, or the last status. -/
def leavingStatus (args : List String) : Run Unit := do
  match args with
  | [] => return
  | text :: _ =>
    let n ← demandCount text
    modify fun s => { s with status := n }

/-- There is no option where there may be none; two dashes are dropped. -/
def noOptions : List String → Run (List String)
  | "--" :: rest => return rest
  | word :: rest => do
    if let '-' :: c :: _ := word.toList then fault ("Illegal option -" ++ String.singleton c)
    return word :: rest
  | [] => return []

/-- Leave loops, or go on with their next rounds. -/
def leaveLoops (args : List String) (jump : Nat → Jump) : Run Nat := do
  let n ← match args with
    | [] => pure 1
    | text :: _ => demandCount text
  if n = 0 then fault ("Illegal number: " ++ args.headD "")
  let loops := (← get).loops
  if loops = 0 then return 0
  modify fun s => { s with status := 0 }
  throw (jump (min n loops))

/-- The signals by their names. -/
def signals : List (String × Nat) :=
  [("EXIT", 0), ("HUP", 1), ("INT", 2), ("QUIT", 3), ("ILL", 4), ("TRAP", 5), ("ABRT", 6), ("BUS", 7),
    ("FPE", 8), ("KILL", 9), ("USR1", 10), ("SEGV", 11), ("USR2", 12), ("PIPE", 13), ("ALRM", 14),
    ("TERM", 15), ("STKFLT", 16), ("CHLD", 17), ("CONT", 18), ("STOP", 19), ("TSTP", 20), ("TTIN", 21),
    ("TTOU", 22), ("URG", 23), ("XCPU", 24), ("XFSZ", 25), ("VTALRM", 26), ("PROF", 27),
    ("WINCH", 28), ("IO", 29), ("PWR", 30), ("SYS", 31)]

def signal? (text : String) : Option Nat :=
  match text.toNat? with
  | some n => if n ≤ 64 then some n else none
  | none => signals.lookup text.toUpper

/-- The signals that do not end a process. -/
def harmless : List Nat :=
  [0, 17, 18, 19, 20, 21, 22, 23, 28]

/-- What is printed of a process that was killed. -/
def deathNote? (signal : Nat) : Option String :=
  match signal with
  | 1 => some "Hangup"
  | 3 => some "Quit"
  | 4 => some "Illegal instruction"
  | 5 => some "Trace/breakpoint trap"
  | 6 => some "Aborted"
  | 7 => some "Bus error"
  | 8 => some "Floating point exception"
  | 9 => some "Killed"
  | 10 => some "User defined signal 1"
  | 11 => some "Segmentation fault"
  | 12 => some "User defined signal 2"
  | 14 => some "Alarm clock"
  | 15 => some "Terminated"
  | _ => none

/-- The job with a number, or the one that is counted behind a percent sign. -/
def job? (text : String) : Run (Option Job) := do
  let jobs := (← get).jobs
  match text.toList with
  | '%' :: ds =>
    let found := match (String.ofList ds).toNat? with
      | some n => if n = 0 then none else jobs.reverse[n - 1]?
      | none => if ds.isEmpty || ds == ['%'] || ds == ['+'] then jobs.head? else none
    match found with
    | some job => return some job
    | none => fault ("No such job: " ++ text)
  | _ =>
    match decimal? text with
    | some n => return jobs.find? fun job => (job.number : Int) = n
    | none => fault ("Illegal number: " ++ text)

/-- Wait for jobs; the status is that of the last one. -/
def waitFor (words : List String) : Run Nat := do
  let tellDeath (job : Job) : Run Unit := do
    if let some text := job.signal.bind deathNote? then tell text
    modify fun s => { s with jobs := s.jobs.map fun other =>
      if other.number = job.number then { job with signal := none } else other }
  let words ← noOptions words
  let mut status := 0
  for word in words do
    match ← job? word with
    | some job =>
      tellDeath job
      status := job.status
    | none => status := 127
  return status

/-- Send a signal to a job. Only one that sleeps is still there to be ended. -/
def signalJob (signal : Nat) (job : Job) : Run Unit := do
  if job.sleeps && !harmless.contains signal then
    let ended := { job with sleeps := false, status := 128 + signal, signal := some signal }
    modify fun s => { s with jobs := s.jobs.map fun other =>
      if other.number = job.number then ended else other }

/-- Send a signal to processes. -/
def sendSignal (signal : Nat) (processes : List String) : Run Nat := do
  let s ← get
  let mut status := 0
  for process in processes do
    if process = s.process then
      match if signal = 9 then none else s.traps.lookup signal with
      | some action =>
        modify fun s => { s with pending := s.pending ++ [action] }
      | none => if !harmless.contains signal then throw (.killed signal)
    else match ← job? process with
      | some job => signalJob signal job
      | none =>
        complain "No such process\n"
        status := 1
  return status

/-- The name of a signal, given its number or the status of a process that it killed. -/
def signalName? (n : Nat) : Option String :=
  let n := if 128 < n then n - 128 else n
  if n = 0 then none
  else if n = 34 then some "RTMIN"
  else if n = 64 then some "RTMAX"
  else if 34 < n && n < 50 then some ("RTMIN+" ++ toString (n - 34))
  else if 50 ≤ n && n < 64 then some ("RTMAX-" ++ toString (64 - n))
  else (signals.find? fun (name, m) => m = n && name ≠ "STKFLT").map (·.1)

def kill (args : List String) : Run Nat := do
  let usage : Run Nat := do
    let text := "Usage: kill [-s sigspec | -signum | -sigspec] [pid | job]... or\n"
      ++ "kill -l [exitstatus]"
    fault text
  let send (name : String) (processes : List String) : Run Nat := do
    let some n := signal? name | fault ("invalid signal number or name: " ++ name)
    if processes.isEmpty then usage else sendSignal n processes
  match args with
  | [] => usage
  | ["-s"] => fault "No arg for -s option"
  | ["-l"] =>
    for n in List.range 65 do
      print 1 ((signalName? n).getD (toString n) ++ "\n")
    return 0
  | "-l" :: text :: _ =>
    let n ← demandCount text
    match signalName? n with
    | some name =>
      print 1 (name ++ "\n")
      return 0
    | none => fault ("invalid signal number or exit status: " ++ text)
  | "-s" :: name :: processes => send name processes
  | "--" :: processes => send "TERM" processes
  | word :: rest =>
    match word.toList with
    | '-' :: c :: cs =>
      let name := String.ofList (c :: cs)
      match signal? name with
      | some _ => send name rest
      | none => fault ("Illegal option -" ++ String.singleton c)
    | _ => send "TERM" args

/-- The letters of what the three bits of a digit leave. -/
def allowed (digit : Nat) : String :=
  (if digit / 4 % 2 = 0 then "r" else "") ++ (if digit / 2 % 2 = 0 then "w" else "")
    ++ (if digit % 2 = 0 then "x" else "")

/-- Print or set what files are not made with, in base 8, or print what they are made with. -/
def setMask (args : List String) : Run Nat := do
  let octal (n : Nat) := String.ofList (Nat.toDigits 8 n)
  match args with
  | ["-S"] =>
    let n := (← get).mask
    print 1 ("u=" ++ allowed (n / 64) ++ ",g=" ++ allowed (n / 8) ++ ",o=" ++ allowed n ++ "\n")
    return 0
  | [] =>
    let text := octal (← get).mask
    print 1 (String.ofList (List.replicate (4 - text.length) '0') ++ text ++ "\n")
    return 0
  | text :: _ =>
    let (n, rest) := readOctal text.length text.toList
    if !rest.isEmpty then
      fault ((if text.toList.all Char.isDigit then "Illegal number: " else "Illegal mode: ") ++ text)
    modify fun s => { s with mask := n % 512 }
    return 0

/-! ## Variables -/

/-- Read a name with a value or without one. -/
def splitAssignment (word : String) : String × Option String :=
  let name := word.toList.takeWhile (· != '=')
  (String.ofList name,
    if name.length < word.length then some (String.ofList (word.toList.drop (name.length + 1)))
    else none)

/-- Print variables as the commands that mark them. -/
def listVariables (command : String) (marked : Variable → Bool) : Run Nat := do
  let chosen := (← get).bindings.filter marked
  for v in chosen.mergeSort fun v w => v.name ≤ w.name do
    let value := match v.value with
      | some text => "=" ++ quote text
      | none => ""
    print 1 (command ++ " " ++ v.name ++ value ++ "\n")
  return 0

/-- Set variables and mark them, or print those that are marked. -/
def markVariables (command : String) (args : List String) (marked : Variable → Bool)
    (mark : Variable → Variable) : Run Nat := do
  let args := if args.head? == some "-p" then [] else args
  let args ← noOptions args
  if args.isEmpty then return ← listVariables command marked
  for word in args do
    let (name, value) := splitAssignment word
    if !isName name then fault (name ++ ": bad variable name")
    if let some value := value then assign name value
    let s ← get
    let v := (s.bindings.find? (·.name = name)).getD { name, value := none }
    set (s.setVariable (mark v))
  return 0

/-- Keep variables for the end of a function. -/
def makeLocal (args : List String) : Run Nat := do
  if (← get).calls = 0 then stop "not in a function"
  for word in args do
    let (name, value) := splitAssignment word
    if !isName name then stop (name ++ ": bad variable name")
    let s ← get
    set { s with saved := (name, s.bindings.find? (·.name = name)) :: s.saved }
    if let some value := value then assign name value
  return 0
where
  /-- A fault that ends the script. -/
  stop (text : String) : Run Unit := do
    complain text
    exitWith 2

/-! ## Other names -/

/-- The place of a name in the list of all other names. -/
def aliasPlace (name : String) : Nat :=
  let codes := name.toList.map Char.toNat
  (16 * codes.headD 0 + codes.foldr (· + ·) 0) % 39

/-- Give other names to texts, or print them. -/
def setAliases (args : List String) : Run Nat := do
  let shown (name text : String) := print 1 (name ++ "=" ++ quote text ++ "\n")
  if args.isEmpty then
    for (name, text) in (← get).aliases.mergeSort fun a b => aliasPlace a.1 ≤ aliasPlace b.1 do
      shown name text
    return 0
  let mut status := 0
  for word in args do
    let (name, text) := splitAssignment word
    match if name.isEmpty then none else text with
    | some text =>
      modify fun s =>
        if s.aliases.any (·.1 = name) then
          { s with aliases := s.aliases.map fun a => if a.1 = name then (name, text) else a }
        else { s with aliases := s.aliases ++ [(name, text)] }
    | none =>
      match (← get).aliases.lookup word with
      | some text => shown word text
      | none =>
        tell ("alias: " ++ word ++ " not found")
        status := 1
  return status

/-- Forget other names. -/
def unsetAliases (args : List String) : Run Nat := do
  if args.head? == some "-a" then
    modify fun s => { s with aliases := [] }
    return 0
  let mut status := 0
  for name in ← noOptions args do
    if (← get).aliases.any (·.1 = name) then
      modify fun s => { s with aliases := s.aliases.filter (·.1 ≠ name) }
    else
      tell ("unalias: " ++ name ++ " not found")
      status := 1
  return status

/-! ## More on variables -/

def unsetAll (args : List String) : Run Nat := do
  let functions := args.head? == some "-f"
  let names := if functions || args.head? == some "-v" then args.drop 1 else args
  for name in names do
    let s ← get
    if functions then
      set { s with functions := s.functions.filter (·.1 ≠ name) }
    else
      if !isName name then fault (name ++ ": bad variable name")
      if s.bindings.any fun v => v.name = name && v.fixed then fault (name ++ ": is read only")
      if name = "OPTIND" then fault "Illegal number: "
      set { s with bindings := s.bindings.filter (·.name ≠ name) }
  return 0

def setOption (on : Bool) (letter : Char) : Run Unit :=
  modify fun s =>
    let others := s.options.filter (· != letter)
    { s with options := if on then others ++ [letter] else others }

/-- Print all options, for a reader or as commands. -/
def listOptions (forReader : Bool) : Run Unit := do
  let s ← get
  if forReader then print 1 "Current option settings\n"
  for (name, letter) in optionNames do
    let on := s.options.contains letter
    let blanks := String.ofList (List.replicate (16 - name.length) ' ')
    print 1 (if forReader then name ++ blanks ++ (if on then "on" else "off") ++ "\n"
      else "set " ++ (if on then "-o " else "+o ") ++ name ++ "\n")

/-- The options that letters stand for. The letter `o` takes the name of one from the words that
follow, of which the rest is left. -/
def chooseOptions (illegal : String → Run Char) (list : Run Unit) :
    List Char → List String → Run (List Char × List String)
  | [], rest => return ([], rest)
  | 'o' :: cs, [] => do
    list
    chooseOptions illegal list cs []
  | 'o' :: cs, name :: rest => do
    let letter ← match optionNames.lookup name with
      | some letter => pure letter
      | none => illegal ("-o " ++ name)
    let (letters, rest) ← chooseOptions illegal list cs rest
    return (letter :: letters, rest)
  | c :: cs, rest => do
    let letter ← if c.isAlpha && (optionNames.map (·.2)).contains c then pure c
      else illegal ("-" ++ String.singleton c)
    let (letters, rest) ← chooseOptions illegal list cs rest
    return (letter :: letters, rest)

/-- Set the arguments of the script. -/
def setArguments (args : List String) : Run Unit :=
  modify fun s => { s with args }.restartOptions 1

/-- Set options and arguments. -/
def setAll : Nat → List String → Run Unit
  | 0, _ | _, [] => return
  | _, "--" :: args => setArguments args
  | _, "-" :: args => do
    setOption false 'x'
    setOption false 'v'
    if !args.isEmpty then setArguments args
  | fuel + 1, word :: rest => do
    match word.toList with
    | sign :: cs =>
      if sign == '-' || sign == '+' then
        let on := sign == '-'
        let illegal (text : String) : Run Char := fault ("Illegal option " ++ text)
        let (letters, rest) ← chooseOptions illegal (listOptions on) cs rest
        letters.forM (setOption on)
        setAll fuel rest
      else setArguments (word :: rest)
    | [] => setArguments (word :: rest)

/-! ## Options of a script -/

/-- What a letter is among the options that are looked for: not one of them, an option, or one with a
value. -/
def optionKind? (c : Char) : List Char → Option Bool
  | [] => none
  | d :: ':' :: rest => if c == d then some true else optionKind? c rest
  | d :: rest => if c == d then some false else optionKind? c rest

/-- The letter that is found, and the place behind it: the number of the next argument, and the place
in the one before it. -/
structure FoundOption where
  letter : String := "?"
  value : Option String := none
  next : Nat
  place : Option Nat := none
  mistake : Option String := none

/-- Look for the next option among arguments: none if there is no further one, with the number of the
argument that follows. -/
def nextOption (wanted : List Char) (args : List String) (next : Nat) (place : Option Nat) :
    Except Nat FoundOption :=
  let current := if next ≤ 1 then none else args[next - 2]?
  let left : List Char := match current, place with
    | some word, some n => word.toList.drop n
    | _, _ => []
  let group : Except Nat (String × List Char × Nat) :=
    match left, args[next - 1]? with
    | c :: cs, _ => .ok (current.getD "", c :: cs, next)
    | [], some "--" => .error (next + 1)
    | [], some word => match word.toList with
      | '-' :: c :: cs => .ok (word, c :: cs, next + 1)
      | _ => .error next
    | [], none => .error next
  match group with
  | .error n => .error n
  | .ok (_, [], n) => .error n
  | .ok (word, c :: rest, next) =>
    let silent := wanted.head? == some ':'
    let letter := String.singleton c
    let after := some (word.length - rest.length)
    match optionKind? c (if silent then wanted.drop 1 else wanted) with
    | none =>
      if silent then .ok { value := some letter, next, place := after }
      else .ok { mistake := some ("Illegal option -" ++ letter), next, place := after }
    | some false => .ok { letter, value := some "", next, place := after }
    | some true =>
      match rest, args[next - 1]? with
      | d :: ds, _ => .ok { letter, value := some (String.ofList (d :: ds)), next }
      | [], some value => .ok { letter, value := some value, next := next + 1 }
      | [], none =>
        if silent then .ok { letter := ":", value := some letter, next }
        else .ok { mistake := some ("No arg for -" ++ letter ++ " option"), next }

/-- Find the next option of a script, or of the given arguments. -/
def findOption (words : List String) : Run Nat := do
  let usage : Run Nat := fault "Usage: getopts optstring var [arg...]"
  match words with
  | wanted :: name :: given =>
    let s ← get
    let args := if given.isEmpty then s.args else given
    let fresh := args.length + 1 < s.nextOption
    let next := if fresh then 1 else s.nextOption
    let store (found : FoundOption) : Run Unit := do
      if let some text := found.mistake then tell text
      match found.value with
      | some value => assign "OPTARG" value
      | none => modify fun s => { s with bindings := s.bindings.filter (·.name ≠ "OPTARG") }
      assign "OPTIND" (toString found.next)
      if !isName name then fault (name ++ ": bad variable name")
      assign name found.letter
      modify fun s => { s with nextOption := found.next, optionPlace := found.place }
    match nextOption wanted.toList args next (if fresh then none else s.optionPlace) with
    | .ok found =>
      store found
      return 0
    | .error next =>
      store { value := s.value? "OPTARG", next }
      return 1
  | _ => usage

/-- Whether a line is read as it is, and the names behind the options. A prompt is not shown. -/
def readOptions (raw : Bool) : List String → Run (Bool × List String)
  | [] => return (raw, [])
  | "--" :: names => return (raw, names)
  | "-r" :: rest => readOptions true rest
  | ["-p"] => fault "No arg for -p option"
  | "-p" :: _ :: rest => readOptions raw rest
  | word :: rest => do
    match word.toList with
    | '-' :: c :: _ => fault ("Illegal option -" ++ String.singleton c)
    | _ => return (raw, word :: rest)

/-- Read a line of the input into variables. -/
def readVariables (args : List String) : Run Nat := do
  let (raw, names) ← readOptions false args
  if names.isEmpty then fault "arg count"
  let s ← get
  let cs := s.input.toList
  let (line, rest, ended) := takeLine raw (cs.length + 1) cs
  set { s with input := String.ofList rest }
  let separators := s.separators
  let blank (c : Char) := separators.contains c && c.isWhitespace
  if let some name := names.find? (!isName ·) then fault (name ++ ": bad variable name")
  let rec give : List String → List Char → Run Unit
    | [], _ => return
    | [name], cs => assign name (String.ofList (cs.reverse.dropWhile blank).reverse)
    | name :: names, cs => do
      let field := cs.takeWhile (!separators.contains ·)
      assign name (String.ofList field)
      let after := (cs.drop field.length).dropWhile blank
      let after := match cs.drop field.length, after with
        | d :: _, c :: after' => if !blank d || (separators.contains c && !blank c) then
            after'.dropWhile blank else c :: after'
        | _, after => after
      give names after
  give names (line.dropWhile blank)
  return if ended then 0 else 1
where
  /-- The characters up to a line break, those behind it, and whether there is one. A backslash
  protects the character after it, unless the line is read as it is. -/
  takeLine (raw : Bool) : Nat → List Char → List Char × List Char × Bool
    | 0, cs => ([], cs, false)
    | _, [] => ([], [], false)
    | _, '\n' :: rest => ([], rest, true)
    | fuel + 1, '\\' :: c :: rest =>
      if raw then
        let (line, rest, ended) := takeLine raw fuel (c :: rest)
        ('\\' :: line, rest, ended)
      else
        let (line, rest, ended) := takeLine raw fuel rest
        (if c == '\n' then line else c :: line, rest, ended)
    | fuel + 1, c :: rest =>
      let (line, rest, ended) := takeLine raw fuel rest
      (c :: line, rest, ended)

/-- The name of a signal that may have an action. -/
def trapName (n : Nat) : String :=
  if n = 0 then "EXIT" else (signalName? n).getD (toString n)

/-- Set what is run at signals, or print it. -/
def setTrap (args : List String) : Run Nat := do
  let set (action : Option String) (names : List String) : Run Nat := do
    for name in names do
      match signal? name with
      | some n =>
        let put := (action.map fun a => (n, a)).toList
        modify fun s => { s with traps := put ++ s.traps.filter (·.1 ≠ n) }
      | none =>
        tell ("trap: " ++ name ++ ": bad trap")
        return 1
    return 0
  match ← noOptions args with
  | [] =>
    for (n, action) in (← get).traps.mergeSort fun a b => a.1 ≤ b.1 do
      print 1 ("trap -- " ++ quote action ++ " " ++ trapName n ++ "\n")
    return 0
  | [name] => set none [name]
  | action :: names => set (if action = "-" then none else some action) names

/-! ## The working directory -/

/-- Go to a folder, which may be looked for in several places. The name is printed if it was not given
as it is. -/
def changeFolder (args : List String) : Run Nat := do
  let args ← noOptions (args.dropWhile fun a => a = "-L" || a = "-P")
  let s ← get
  let (target, tells) := match args.head? with
    | none => ((s.value? "HOME").getD "", false)
    | some "-" => ((s.value? "OLDPWD").getD ".", true)
    | some path => (path, false)
  if target.isEmpty then return 0
  let anchored := ["/", "./", "../"].any (target.startsWith ·) || [".", ".."].contains target
  let places := if anchored then [] else ((s.value? "CDPATH").getD "").splitOn ":"
  let candidates := (places.filter (!·.isEmpty)).map fun folder => (folder ++ "/" ++ target, true)
  let isFolder (path : String) := (s.disk.look (s.path path)) matches .ok .folder
  match (candidates ++ [(target, tells)]).find? fun (path, _) => isFolder path with
  | none => fault ("can't cd to " ++ target)
  | some (path, tells) =>
    let dir := s.path path
    let dir := if dir.startsWith "/" then (Path.ofText dir).text else dir
    set { s with dir }
    let there := fromRoot dir
    modify fun t =>
      let t := t.setVariable { name := "OLDPWD", value := s.value? "PWD", exported := true }
      t.setVariable { name := "PWD", value := some there, exported := true }
    if tells then print 1 (there ++ "\n")
    return 0

/-- Print the working directory. -/
def printFolder (args : List String) : Run Nat := do
  let _ ← noOptions (args.filter fun a => a ≠ "-L" && a ≠ "-P")
  print 1 (fromRoot (← get).dir ++ "\n")
  return 0

/-! ## Limits -/

/-- The letters of limits, and those that say which limits are meant. -/
def limitLetters : List Char :=
  ['H', 'S', 'a', 't', 'f', 'd', 's', 'c', 'm', 'l', 'p', 'n', 'v', 'w', 'r']

/-- Print a limit, which is none. -/
def showLimit (args : List String) : Run Nat := do
  let (options, rest) := (args.takeWhile (·.startsWith "-"), args.dropWhile (·.startsWith "-"))
  let letters := options.flatMap fun a => a.toList.drop 1
  if let some c := letters.find? (!limitLetters.contains ·) then
    fault ("Illegal option -" ++ String.singleton c)
  match rest with
  | [] =>
    print 1 (if letters.contains 'c' then "0\n" else "unlimited\n")
    return 0
  | value :: _ =>
    if value ≠ "unlimited" && value.toNat?.isNone then fault "bad number"
    return 0

/-! ## All of them -/

/-- A command of the shell that does not run others. -/
def builtin? (name : String) : Option (List String → Run Nat) :=
  match name with
  | ":" | "true" => some fun _ => return 0
  | "times" => some fun _ => do
    print 1 "0m0.00s 0m0.00s\n0m0.00s 0m0.00s\n"
    return 0
  | "jobs" => some fun args => do
    let _ ← noOptions (args.filter fun a => a ≠ "-l" && a ≠ "-p")
    return 0
  | "fg" | "bg" => some fun args => do
    match args with
    | [] => fault "No current job"
    | text :: _ => fault ("No such job: " ++ text)
  | "alias" => some setAliases
  | "unalias" => some unsetAliases
  | "ulimit" => some showLimit
  | "wait" => some waitFor
  | "umask" => some setMask
  | "getopts" => some findOption
  | "false" => some fun _ => return 1
  | "echo" => some fun args => do
    if ((← get).channels.lookup 1) matches some .closed | none then
      complain "echo: I/O error"
      return 1
    print 1 (echoText args)
    return 0
  | "printf" => some printFormat
  | "test" => some fun args => return if ← test args then 0 else 1
  | "[" => some fun args => do
    if args.getLast? ≠ some "]" then fault "missing ]"
    return if ← test args.dropLast then 0 else 1
  | "exit" => some fun args => do
    leavingStatus args
    modify fun s => { s with status := s.status % 256 }
    throw .exit
  | "return" => some fun args => do
    leavingStatus args
    throw .back
  | "break" => some fun args => leaveLoops args .leaveLoops
  | "continue" => some fun args => leaveLoops args .nextRound
  | "kill" => some kill
  | "cd" | "chdir" => some changeFolder
  | "pwd" => some printFolder
  | "shift" => some fun args => do
    let n ← match args with
      | [] => pure 1
      | text :: _ => demandCount text
    if n > (← get).args.length then fault "can't shift that many"
    setArguments ((← get).args.drop n)
    return 0
  | "set" => some fun args => do
    setAll (args.length + 1) args
    return 0
  | "unset" => some unsetAll
  | "export" => some fun args =>
    markVariables "export" args (·.exported) fun v => { v with exported := true }
  | "readonly" => some fun args =>
    markVariables "readonly" args (·.fixed) fun v => { v with fixed := true }
  | "local" => some makeLocal
  | "read" => some readVariables
  | "trap" => some setTrap
  | _ => none

/-- A command of the shell itself. -/
def isBuiltin (name : String) : Bool :=
  ["eval", ".", "exec", "command", "type", "hash"].contains name || (builtin? name).isSome

end Tangent.Shell
