import Tangent.Shell.Builtins
import Tangent.Shell.Reading
import Tangent.Shell.Tools

/-!
# Running scripts

Commands are run one after another on a state. The fuel bounds the number of nested steps and of the
rounds of loops; a script that ends on its own before it is used up does not see it.
-/

namespace Tangent.Shell

/-! ## Parts that are run apart -/

/-- Run something whose changes of the state are lost, apart from those of the disk and the
output. The result is its status. -/
def apart (body : Run Unit) : Run Nat := do
  let s ← get
  let (ending, t) := body.run { s with loops := 0, traps := s.traps.filter (·.2.isEmpty) }
  set { s with
    disk := t.disk, runnable := t.runnable, buffers := t.buffers, input := t.input
    slept := t.slept }
  match ending with
  | .error (.killed signal) => throw (.killed signal)
  | _ => return t.status

/-- Run something whose output is taken. -/
def withOutput (body : Run Nat) : Run (String × Nat) := do
  let s ← get
  let n := s.buffers.length
  set { s with
    buffers := s.buffers ++ [""]
    channels := (1, .buffer n) :: s.channels.filter (·.1 ≠ 1) }
  let status ← body
  let t ← get
  set { t with buffers := t.buffers.take n, channels := s.channels }
  return (t.buffers.getD n "", status)

/-- Run something in a condition, where a failure does not end the script. -/
def asTested (body : Run Unit) : Run Unit := do
  let tested := (← get).tested
  modify fun s => { s with tested := true }
  body
  modify fun s => { s with tested }

/-- End the script at a failure, if that is asked for. -/
def checkFailure : Run Unit := do
  let s ← get
  if s.status ≠ 0 && s.options.contains 'e' && !s.tested then throw .exit

/-- How something ends that is run here. -/
def attempt {α : Type} (body : Run α) : Run (Except Jump α) :=
  ExceptT.lift body.run

/-! ## Redirections -/

/-- Redirect a channel. -/
def redirect (channel : Nat) (route : Route) (target : String) : Run Unit := do
  let s ← get
  let lead (sink : Sink) : Run Unit :=
    set { s with channels := (channel, sink) :: s.channels.filter (·.1 ≠ channel) }
  let sinkOf (n : Nat) : Sink := (s.channels.lookup n).getD .closed
  let path := s.path target
  match route with
  | .copy =>
    if target = "-" then lead .closed
    else match if target.length = 1 then target.toNat? else none with
      | some n =>
        if channel = 0 || n = 0 then return
        match sinkOf n with
        | .closed =>
          if channel = 2 then lead .closed
          fault (target ++ ": Bad file descriptor")
        | sink => lead sink
      | none =>
        complain "Syntax error: Bad fd number"
        exitWith 2
  | .here => set { s with input := target }
  | .read =>
    if target = "/dev/null" then set { s with input := "" }
    else match s.disk.look path with
      | .ok (.file content) => set { s with input := content }
      | .ok .folder => set { s with input := "" }
      | .error _ => fault ("cannot open " ++ target ++ ": No such file")
  | .write | .append | .overwrite =>
    match target with
    | "/dev/null" => lead .dropped
    | "/dev/stdout" => lead (sinkOf 1)
    | "/dev/stderr" => lead (sinkOf 2)
    | _ =>
      let before := if route = .append then (s.disk.content? path).getD "" else ""
      if route = .write && s.options.contains 'C' && (s.disk.content? path).isSome then
        fault ("cannot create " ++ target ++ ": File exists")
      match s.disk.write path before with
      | .ok disk =>
        set { s with disk, channels := (channel, .file path) :: s.channels.filter (·.1 ≠ channel) }
      | .error _ =>
        match s.disk.look path with
        | .ok _ => fault ("cannot create " ++ target ++ ": Is a directory")
        | .error _ => fault ("cannot create " ++ target ++ ": Directory nonexistent")

/-- Redirect channels one after another. -/
def redirectAll (capture : Command → Run String) : List Redirect → Run Unit
  | [] => return
  | .mk channel route target :: rest => do
    redirect channel route (← expandText capture target)
    redirectAll capture rest

/-- Run something with channels as they are, and give them back. -/
def keepingChannels {α : Type} (redirected : Bool) (body : Run α) : Run α := do
  let s ← get
  let ending ← attempt body
  modify fun t =>
    { t with channels := s.channels, input := if redirected then s.input else t.input }
  match ending with
  | .ok a => return a
  | .error jump => throw jump

/-- One of the redirections is of the input. -/
def readsInput (redirects : List Redirect) : Bool :=
  redirects.any fun
    | .mk channel _ _ => channel == 0

/-! ## Starting a shell -/

/-- What the arguments of a shell say. -/
structure Call where
  options : List Char := []
  /-- The first argument behind the options is the script itself. -/
  given : Bool := false
  rest : List String := []

/-- Read the options of a shell. -/
def readCall : Nat → Call → List String → Run Call
  | 0, c, _ | _, c, [] => return c
  | _, c, "-" :: rest | _, c, "--" :: rest => return { c with rest }
  | fuel + 1, c, word :: rest => do
    match word.toList with
    | sign :: x :: xs =>
      if sign == '-' || sign == '+' then
        let illegal (text : String) : Run Char := fault ("Illegal option " ++ text)
        let plain := (x :: xs).filter fun l => l != 'c' && l != 'l'
        let (letters, rest) ← chooseOptions illegal (listOptions (sign == '-')) plain rest
        readCall fuel { c with
          given := c.given || (x :: xs).contains 'c'
          options := if sign == '-' then c.options ++ letters
            else c.options.filter (!letters.contains ·) } rest
      else return { c with rest := word :: rest }
    | _ => return { c with rest := word :: rest }

/-- The folders in which programs are looked for. -/
def State.searched (s : State) : List String :=
  ((s.value? "PATH").getD "/nowhere").splitOn ":"

/-- Programs are looked up where they are. -/
def State.findsPrograms (s : State) : Bool :=
  s.searched.any fun folder => folder = "/bin" || folder = "/usr/bin"

/-- The path of a file that a command names and that may be run. -/
def State.runnable? (s : State) (name : String) : Option String :=
  if name.contains '/' then if s.mayRun name then some name else none
  else (s.searched.map fun folder => folder ++ "/" ++ name).find? s.mayRun

/-- The program of a command. -/
def State.program? (s : State) (name : String) : Option String :=
  if name.contains '/' || s.findsPrograms then programName? name else none

/-- What a command is: how that is said, and how it is written. -/
def describe? (name : String) : Run (Option (String × String)) := do
  let s ← get
  let inShell (kind : String) := some (kind, name)
  return if keywords.contains name then inShell "a shell keyword"
    else if let some text := s.aliases.lookup name then
      some ("an alias for " ++ text, "alias " ++ name ++ "=" ++ quote text)
    else if specialNames.contains name then inShell "a special shell builtin"
    else if s.functions.any (·.1 = name) then inShell "a shell function"
    else if isBuiltin name then inShell "a shell builtin"
    else (s.program? name).map fun _ =>
      let path := if name.contains '/' then name else "/usr/bin/" ++ name
      (path, path)

/-- Say what commands are. -/
def describeAll (names : List String) : Run Nat := do
  let mut status := 0
  for name in names do
    match ← describe? name with
    | some (kind, _) => print 1 (name ++ " is " ++ kind ++ "\n")
    | none =>
      print 1 (name ++ ": not found\n")
      status := 127
  return status

/-- Look for programs. -/
def lookFor (args : List String) : Run Nat := do
  let mut status := 0
  for name in ← noOptions (args.filter (· ≠ "-r")) do
    if !isBuiltin name && !(← get).functions.any (·.1 = name) && ((← get).program? name).isNone then
      complain (name ++ ": not found")
      status := 1
  return status

/-- How a command is to be run or described that is not to be a function. -/
structure Plain where
  describes : Bool := false
  writes : Bool := false
  words : List String

/-- Read the options of that. -/
def readPlain (p : Plain) : List String → Run Plain
  | [] => return { p with words := [] }
  | "--" :: words => return { p with words }
  | word :: rest => do
    match word.toList with
    | '-' :: c :: cs =>
      for letter in c :: cs do
        if letter ≠ 'p' && letter ≠ 'v' && letter ≠ 'V' then
          fault ("Illegal option -" ++ String.singleton letter)
      readPlain { p with
        describes := p.describes || (c :: cs).contains 'V'
        writes := p.writes || (c :: cs).contains 'v' } rest
    | _ => return { p with words := word :: rest }

/-- Print a command before it is run, if that is asked for. -/
def trace (names fields : List String) : Run Unit := do
  let s ← get
  if s.options.contains 'x' then
    let assignments := names.map fun name => name ++ "=" ++ (s.value? name).getD ""
    if !(assignments ++ fields).isEmpty then
      tell ((s.value? "PS4").getD "" ++ String.intercalate " " (assignments ++ fields))

/-! ## Loops -/

/-- Run a loop: its rounds may be left from inside. -/
def inLoop (body : Run Unit) : Run Unit := do
  modify fun s => { s with loops := s.loops + 1 }
  let ending ← attempt body
  modify fun s => { s with loops := s.loops - 1 }
  match ending with
  | .ok _ => return
  | .error (.leaveLoops n) => if n > 1 then throw (.leaveLoops (n - 1))
  | .error (.nextRound n) => if n > 1 then throw (.nextRound (n - 1))
  | .error jump => throw jump

/-- Run a round of a loop. The result says whether there may be another one. -/
def inRound (body : Run Unit) : Run Bool := do
  match ← attempt body with
  | .ok _ | .error (.nextRound 1) => return true
  | .error jump => throw jump

/-! ## Commands -/

mutual

/-- Run a command. Its status is left in the state. -/
def runCommand : Nat → Command → Run Unit
  | 0, _ => exitWith 2
  | fuel + 1, command => do
    if (← get).options.contains 'n' then return
    match command with
    | .nothing => return
    | .simple line assignments words redirects => runSimple fuel line assignments words redirects
    | .redirected inner redirects =>
      keepingChannels (readsInput redirects) do
        match ← attempt (redirectAll (capture fuel) redirects) with
        | .error .fault => checkFailure
        | .error jump => throw jump
        | .ok _ => runCommand fuel inner
    | .sequence first second =>
      runCommand fuel first
      runCommand fuel second
    | .both first second =>
      asTested (runCommand fuel first)
      if (← get).status = 0 then runCommand fuel second
    | .either first second =>
      asTested (runCommand fuel first)
      if (← get).status ≠ 0 then runCommand fuel second
    | .negation inner =>
      asTested (runCommand fuel inner)
      modify fun s => { s with status := if s.status = 0 then 1 else 0 }
    | .pipe first second =>
      let (text, _) ← withOutput (apart (runToEnd fuel first))
      let input := (← get).input
      modify fun s => { s with input := text }
      let status ← apart (runToEnd fuel second)
      modify fun s => { s with status, input }
      checkFailure
    | .background inner =>
      let slept := (← get).slept
      modify fun s => { s with slept := false }
      let status ← apart (runToEnd fuel inner)
      modify fun s => { s with
        status := 0
        slept := slept || s.slept
        jobs := { number := 2000 + s.jobs.length, status, sleeps := s.slept } :: s.jobs }
    | .subshell inner =>
      let status ← apart (runToEnd fuel inner)
      modify fun s => { s with status }
      checkFailure
    | .choice condition yes no =>
      asTested (runCommand fuel condition)
      if (← get).status = 0 then runCommand fuel yes
      else
        modify fun s => { s with status := 0 }
        runCommand fuel no
    | .loop wanted condition body =>
      inLoop (runLoop fuel wanted condition body 0)
    | .each name words body =>
      let values ← match words with
        | some words => expandWords (capture fuel) words
        | none => do pure (← get).args
      modify fun s => { s with status := 0 }
      inLoop (runEach fuel name body values)
    | .cases word arms =>
      let text ← expandText (capture fuel) word
      modify fun s => { s with status := 0 }
      runArms fuel text arms
    | .define name line body =>
      modify fun s => { s with
        functions := (name, line, body) :: s.functions.filter (·.1 ≠ name)
        status := 0 }

/-- Run a command in a shell of its own, and what that has set to be run at its end. -/
def runToEnd : Nat → Command → Run Unit
  | 0, _ => exitWith 2
  | fuel + 1, command => do
    let ending ← attempt (runCommand fuel command)
    runLast fuel ending

/-- Run what is set to be run at the end of a shell. -/
def runLast : Nat → Except Jump Unit → Run Unit
  | 0, _ => exitWith 2
  | _, .error (.killed signal) => throw (.killed signal)
  | fuel + 1, _ => do
    let s ← get
    if let some action := s.traps.lookup 0 then
      set { s with traps := [] }
      match ← attempt (runText fuel { rest := action.toList }) with
      | .error (.killed signal) => throw (.killed signal)
      | .error _ => return
      | .ok _ => modify fun t => { t with status := s.status }

/-- The output of a command without the line breaks at its end, and without zeros. -/
def capture : Nat → Command → Run String
  | 0, _ => exitWith 2
  | fuel + 1, command => do
    let (text, status) ← withOutput (apart (runToEnd fuel command))
    modify fun s => { s with answer := status }
    let kept := text.toList.filter (· != '\x00')
    return String.ofList (kept.reverse.dropWhile (· == '\n')).reverse

/-- Run the rounds of a loop, where `last` is the status of the last round. -/
def runLoop : Nat → Bool → Command → Command → Nat → Run Unit
  | 0, _, _, _, _ => exitWith 2
  | fuel + 1, wanted, condition, body, last => do
    asTested (runCommand fuel condition)
    if ((← get).status = 0) = wanted then
      if ← inRound (runCommand fuel body) then
        runLoop fuel wanted condition body (← get).status
    else modify fun s => { s with status := last }

/-- Run a round for each value. -/
def runEach : Nat → String → Command → List String → Run Unit
  | 0, _, _, _ => exitWith 2
  | _, _, _, [] => return
  | fuel + 1, name, body, value :: rest => do
    assign name value
    if ← inRound (runCommand fuel body) then
      runEach fuel name body rest

/-- Run the first arm that fits. -/
def runArms : Nat → String → List (List Word × Command) → Run Unit
  | 0, _, _ => exitWith 2
  | _, _, [] => return
  | fuel + 1, text, (patterns, body) :: rest => do
    if ← fitsAny fuel text patterns then runCommand fuel body else runArms fuel text rest

def fitsAny : Nat → String → List Word → Run Bool
  | 0, _, _ => return false
  | _, _, [] => return false
  | fuel + 1, text, pattern :: rest => do
    if (← expandGlob (capture fuel) pattern).fits text then return true
    fitsAny fuel text rest

/-- Give variables their values. -/
def runAssignments : Nat → List (String × Word) → Run Unit
  | 0, _ => exitWith 2
  | _, [] => return
  | fuel + 1, (name, word) :: rest => do
    assign name (← expandText (capture fuel) word)
    runAssignments fuel rest

/-- Run a simple command: replace its words, redirect, and run what its first word names. -/
def runSimple : Nat → Nat → List (String × Word) → List Word → List Redirect → Run Unit
  | 0, _, _, _, _ => exitWith 2
  | fuel + 1, line, assignments, words, redirects => do
    modify fun s => { s with line := line + 1 - s.base, answer := 0 }
    let fields ← expandWords (capture fuel) words
    let special := specialNames.contains (fields.headD ":")
    let permanent := fields = ["exec"]
    let body : Run Unit := do
      match ← attempt (redirectAll (capture fuel) redirects) with
      | .error .fault => if special && !fields.isEmpty then throw .exit
      | .error jump => throw jump
      | .ok _ =>
        match fields with
        | [] =>
          runAssignments fuel assignments
          trace (assignments.map (·.1)) []
          modify fun s => { s with status := s.answer }
        | name :: args =>
          let before := (← get).bindings
          runAssignments fuel assignments
          let names := assignments.map (·.1)
          let mark (v : Variable) := { v with exported := v.exported || names.contains v.name }
          modify fun s => { s with bindings := s.bindings.map mark }
          trace names fields
          runNamed fuel name args
          if !special then
            let old := before.filter fun v => names.contains v.name
            modify fun s => { s with
              bindings := old ++ s.bindings.filter fun v => !names.contains v.name }
    if permanent then body else keepingChannels (readsInput redirects) body
    runPending fuel
    checkFailure

/-- Run what signals have left to be run. The status stays as it was. -/
def runPending : Nat → Run Unit
  | 0 => exitWith 2
  | fuel + 1 => do
    let s ← get
    match s.pending with
    | [] => return
    | action :: rest =>
      set { s with pending := rest }
      runText fuel { rest := action.toList }
      modify fun t => { t with status := s.status }
      runPending fuel

/-- Run a command by its name, with its arguments. -/
def runNamed : Nat → String → List String → Run Unit
  | 0, _, _ => exitWith 2
  | fuel + 1, name, args => do
    if specialNames.contains name then
      match ← attempt (runBuiltin fuel name args) with
      | .ok _ => return
      | .error .fault => throw .exit
      | .error jump => throw jump
    else match (← get).functions.find? (·.1 = name) with
      | some (_, line, body) => runFunction fuel line body args
      | none =>
        if isBuiltin name then
          match ← attempt (runBuiltin fuel name args) with
          | .ok _ | .error .fault => return
          | .error jump => throw jump
        else runProgram fuel name args

/-- Run a command of the shell itself. Its name stands in messages. -/
def runBuiltin : Nat → String → List String → Run Unit
  | 0, _, _ => exitWith 2
  | fuel + 1, name, args => do
    let before := (← get).command
    modify fun s => { s with command := some name }
    let ending ← attempt (runSpecial fuel name args)
    modify fun s => { s with command := before }
    match ending with
    | .ok status => modify fun s => { s with status }
    | .error jump => throw jump

/-- Run a command that is not a function, and whose faults do not end the script. -/
def runPlain : Nat → List String → Run Nat
  | 0, _ => exitWith 2
  | fuel + 1, words => do
    let p ← readPlain { words := [] } words
    match p.words with
    | [] => return 0
    | name :: args =>
      if p.describes then return ← describeAll [name]
      if p.writes then
        let found ← describe? name
        if let some (_, text) := found then print 1 (text ++ "\n")
        return if found.isSome then 0 else 127
      modify fun s => { s with command := none }
      match ← attempt (if isBuiltin name then runBuiltin fuel name args
        else runProgram fuel name args) with
      | .ok _ | .error .fault => return (← get).status
      | .error jump => throw jump

/-- Run a function. -/
def runFunction : Nat → Nat → Command → List String → Run Unit
  | 0, _, _, _ => exitWith 2
  | fuel + 1, line, body, args => do
    let s ← get
    set ({ s with args, loops := 0, base := line, saved := [], calls := s.calls + 1 }.restartOptions 1)
    let ending ← attempt (runCommand fuel body)
    let t ← get
    let bindings := t.saved.foldl (fun bindings (name, old) =>
      old.toList ++ bindings.filter (·.name ≠ name)) t.bindings
    set { t with
      args := s.args
      calls := s.calls
      nextOption := s.nextOption
      optionPlace := s.optionPlace
      loops := s.loops
      base := s.base
      saved := s.saved
      bindings }
    match ending with
    | .ok _ | .error .back => return
    | .error jump => throw jump

/-- Run a command of the shell that may run others. -/
def runSpecial : Nat → String → List String → Run Nat
  | 0, _, _ => exitWith 2
  | fuel + 1, name, args => do
    match name with
    | "eval" =>
      if args.isEmpty then return 0
      modify fun s => { s with status := 0 }
      runText fuel { rest := (String.intercalate " " args).toList }
      return (← get).status
    | "." =>
      match args with
      | [] => return 0
      | path :: _ =>
        let s ← get
        match s.disk.content? (s.path path) with
        | some text =>
          if !path.contains '/' then fault (path ++ ": not found")
          modify fun s => { s with status := 0 }
          match ← attempt (runText fuel { rest := text.toList }) with
          | .ok _ | .error .back => return (← get).status
          | .error jump => throw jump
        | none => fault (if path.contains '/' then "cannot open " ++ path ++ ": No such file"
            else path ++ ": not found")
    | "exec" =>
      match args with
      | [] => return 0
      | program :: args =>
        let s ← get
        if (s.program? program).isSome || (s.runnable? program).isSome then
          runProgram fuel program args
          throw .exit
        else
          complain (program ++ ": not found")
          exitWith 127
    | "command" => runPlain fuel args
    | "type" => describeAll args
    | "hash" => lookFor args
    | _ =>
      match builtin? name with
      | some action => action args
      | none => return 0

/-- Run a program. -/
def runProgram : Nat → String → List String → Run Unit
  | 0, _, _ => exitWith 2
  | fuel + 1, name, args => do
    let s ← get
    let ended (status : Nat) : Run Unit := modify fun s => { s with status }
    match s.program? name, s.runnable? name with
    | some "sh", _ => ended (← runShell fuel name args)
    | some "env", _ => runWith fuel args
    | some program, _ =>
      match tool? program with
      | some action => ended (← action args)
      | none => ended 127
    | none, some path => runFile fuel path args
    | none, none =>
      if name.isEmpty then
        complain ": Permission denied"
        ended 127
      else if name.contains '/' && (s.disk.look (s.path name)).isOk then
        complain (name ++ ": Permission denied")
        ended 126
      else
        complain (name ++ ": not found")
        ended 127

/-- Run a file. The first line may name a program that is to run it. -/
def runFile : Nat → String → List String → Run Unit
  | 0, _, _ => exitWith 2
  | fuel + 1, path, args => do
    let s ← get
    let ended (status : Nat) : Run Unit := modify fun s => { s with status }
    match ((s.disk.content? (s.path path)).getD "").toList with
    | '#' :: '!' :: text =>
      let line := String.ofList (text.takeWhile (· != '\n'))
      match (line.split Char.isWhitespace).toList.map toString |>.filter (!·.isEmpty) with
      | [] => ended (← runShell fuel path (path :: args))
      | program :: options =>
        if (s.program? program).isSome then
          let option := if options.isEmpty then [] else [String.intercalate " " options]
          runProgram fuel program (option ++ path :: args)
        else
          complain (path ++ ": not found")
          ended 127
    | _ => ended (← runShell fuel path (path :: args))

/-- Run a program with other variables. -/
def runWith : Nat → List String → Run Unit
  | 0, _ => exitWith 2
  | fuel + 1, words => do
    let before := (← get).bindings
    let clear := words.head? == some "-i" || words.head? == some "-"
    if clear then
      modify fun s => { s with bindings := s.bindings.map fun v => { v with exported := false } }
    let words := if clear then words.drop 1 else words
    let given := words.takeWhile (·.contains '=')
    for word in given do
      let (name, value) := splitAssignment word
      modify (·.setVariable { name, value, exported := true })
    match words.drop given.length with
    | [] =>
      for v in (← get).bindings.filter (·.exported) do
        print 1 (v.name ++ "=" ++ v.value.getD "" ++ "\n")
      modify fun s => { s with bindings := before, status := 0 }
    | name :: args =>
      if ((← get).program? name).isSome || ((← get).runnable? name).isSome then
        runProgram fuel name args
      else
        tell ("env: '" ++ name ++ "': No such file or directory")
        modify fun s => { s with status := 127 }
      modify fun s => { s with bindings := before }

/-- Run a shell inside another one. -/
def runShell : Nat → String → List String → Run Nat
  | 0, _, _ => exitWith 2
  | fuel + 1, name, args => do
    let s ← get
    let inner : State :=
      { disk := s.disk, dir := s.dir, name, args := [], channels := s.channels
        runnable := s.runnable, mask := s.mask, buffers := s.buffers, input := s.input, depth := s.depth + 1, line := 0
        bindings := s.bindings.filter (·.exported) ++ firstBindings }
    let (ending, t) := (startShell fuel name args).run inner
    set { s with
      disk := t.disk, runnable := t.runnable, buffers := t.buffers, input := t.input
      slept := t.slept }
    match ending with
    | .error (.killed signal) =>
      if let some text := deathNote? signal then tell text
      return 128 + signal
    | _ => return t.status

/-- Run a shell with its arguments from the start to the end. -/
def startShell : Nat → String → List String → Run Unit
  | 0, _, _ => exitWith 2
  | fuel + 1, name, args => do
    let call ← readCall (args.length + 1) {} args
    modify fun s => { s with options := call.options }
    match call.given, call.rest with
    | true, [] => fault "-c requires an argument"
    | true, script :: rest =>
      modify fun s => { s with name := rest.headD name, args := rest.drop 1, line := 1 }
      runScript fuel script
    | false, path :: rest =>
      if call.options.contains 's' then
        modify fun s => { s with args := path :: rest }
        runInput fuel
      else
        let s ← get
        match s.disk.content? (s.path path) with
        | some text =>
          modify fun s => { s with name := path, args := rest, line := 1 }
          runScript fuel text
        | none => fault ("cannot open " ++ path ++ ": No such file")
    | false, [] =>
      modify fun s => { s with options := s.options ++ ['s'] }
      runInput fuel

/-- Run the input as a script. -/
def runInput : Nat → Run Unit
  | 0 => exitWith 2
  | fuel + 1 => do
    let text := (← get).input
    modify fun s => { s with input := "", line := 1 }
    runScript fuel text

/-- Run a script, and what it has set to be run at its end. -/
def runScript : Nat → String → Run Unit
  | 0, _ => exitWith 2
  | fuel + 1, text => do
    let ending ← attempt (runText fuel { rest := text.toList })
    runLast fuel ending

/-- Run the lines of a source. -/
def runText : Nat → Source → Run Unit
  | 0, _ => exitWith 2
  | fuel + 1, source => do
    match { source with aliases := (← get).aliases }.readLine? with
    | .error mistake =>
      modify fun s => { s with line := mistake.line }
      complain mistake.text
      exitWith 2
    | .ok none => return
    | .ok (some (command, rest)) =>
      runCommand fuel command
      runText fuel rest

end

/-- The fuel for a script. -/
def endurance : Nat := 1000000

end Tangent.Shell
