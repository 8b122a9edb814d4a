import Tangent.Shell.Printing

/-!
# Programs on files

The programs that a script may call to work on files and texts. Each gives the status with which it
ends, and prints what it has to say of a file that it cannot use.
-/

namespace Tangent.Shell

/-- What a program prints of a trouble. -/
def explain : Trouble → String
  | .absent => "No such file or directory"
  | .notDirectory => "Not a directory"
  | .isDirectory => "Is a directory"
  | .present => "File exists"
  | .refused => "Permission denied"
  | .tooLong => "File name too long"
  | .invalid => "Invalid argument"

/-- Split arguments into the letters of options and the rest. -/
def splitOptions : List String → List Char × List String
  | "--" :: rest => ([], rest)
  | word :: rest =>
    let (letters, others) := splitOptions rest
    match word.toList with
    | '-' :: c :: cs => (c :: cs ++ letters, others)
    | _ => (letters, word :: others)
  | [] => ([], [])

/-- Run an action for each name; the status is that of a failure, if there was one. -/
def forEach (names : List String) (action : String → Run Bool) : Run Nat := do
  let mut status := 0
  for name in names do
    if !(← action name) then status := 1
  return status

/-- Say what is wrong; the action failed. -/
def refuse (text : String) : Run Bool := do
  tell text
  return false

/-- What a program says when it lacks an argument. -/
def lacks (program text : String) : Run Nat := do
  tell (program ++ ": " ++ text)
  tell ("Try '" ++ program ++ " --help' for more information.")
  return 1

/-- What stands at a name. -/
def lookAt (name : String) : Run (Except Trouble Entry) := do
  let s ← get
  return s.disk.look (s.path name)

/-- The content of a file, or of the input for `-`. -/
def contentOf (program name : String) : Run (Option String) := do
  if name = "-" then
    let text := (← get).input
    modify fun s => { s with input := "" }
    return some text
  match ← lookAt name with
  | .ok (.file content) => return some content
  | .ok .folder =>
    tell (program ++ ": " ++ name ++ ": " ++ explain .isDirectory)
    return none
  | .error trouble =>
    tell (program ++ ": " ++ name ++ ": " ++ explain trouble)
    return none

/-- Show files one after another. -/
def concatenate (names : List String) : Run Nat :=
  forEach (if names.isEmpty then ["-"] else names) fun name => do
    let some text ← contentOf "cat" name | return false
    print 1 text
    return true

/-- The name under which a file comes into a folder or becomes another file. -/
def destination (source target : String) : Run String := do
  match ← lookAt target with
  | .ok .folder => return (if target.endsWith "/" then target else target ++ "/") ++ Path.base source
  | _ => return target

/-- Two names of one thing. -/
def sameFile (x y : String) : Run Bool := do
  let s ← get
  return match s.disk.locate (s.path x), s.disk.locate (s.path y) with
    | .ok p, .ok q => p = q
    | _, _ => false

/-- The trouble of writing a file at a name. -/
def writeTrouble (name : String) : Run Trouble := do
  let s ← get
  return match s.disk.locate (s.path name) with
    | .error trouble => trouble
    | .ok _ => .isDirectory

/-- Write a file. -/
def writeFile (name content : String) : Run Bool := do
  let s ← get
  match s.disk.write (s.path name) content with
  | .ok disk =>
    set { s with disk }
    return true
  | .error _ => return false

/-- Move or copy what stands at a place, with all that is in it. -/
def transfer (moves : Bool) (source target : Path) : Run Unit :=
  modify fun s =>
    let inside := s.disk.entries.filter fun (p, _) => source.contains p
    let kept := if moves then s.disk.entries.filter fun (p, _) => !source.contains p
      else s.disk.entries
    let moved (p : Path) : Path :=
      { target with parts := target.parts ++ p.parts.drop source.parts.length }
    let renamed := inside.map fun (p, e) => (moved p, e)
    let runnable := (s.runnable.filter source.contains).map moved
      ++ s.runnable.filter fun p => !moves || !source.contains p
    { s with
      disk := renamed.foldl (fun d (p, e) => d.put p e) { s.disk with entries := kept }
      runnable }

/-- Copy or move one thing. -/
def carry (program : String) (moves folders : Bool) (source target : String) : Run Bool := do
  let quoted (name : String) := "'" ++ name ++ "'"
  match ← lookAt source with
  | .error trouble =>
    refuse (program ++ ": cannot stat " ++ quoted source ++ ": " ++ explain trouble)
  | .ok entry =>
    let isFolder := match entry with
      | .folder => true
      | .file _ => false
    if isFolder && !moves && !folders then
      return ← refuse (program ++ ": -r not specified; omitting directory " ++ quoted source)
    let name ← destination source target
    if ← sameFile source name then
      return ← refuse (program ++ ": " ++ quoted source ++ " and " ++ quoted name
        ++ " are the same file")
    let s ← get
    match s.disk.locate (s.path source), s.disk.locate (s.path name) with
    | .ok p, .ok q =>
      transfer moves p q
      return true
    | _, .error trouble =>
      if moves then
        refuse (program ++ ": cannot move " ++ quoted source ++ " to " ++ quoted name ++ ": "
          ++ explain trouble)
      else
        refuse (program ++ ": cannot create regular file " ++ quoted name ++ ": "
          ++ explain trouble)
    | .error _, _ => return false

/-- Copy or move things. -/
def carryAll (program : String) (moves : Bool) (args : List String) : Run Nat := do
  let (letters, names) := splitOptions args
  let folders := letters.any fun c => c == 'r' || c == 'R' || c == 'a'
  match names with
  | [] => lacks program "missing file operand"
  | [name] => lacks program ("missing destination file operand after '" ++ name ++ "'")
  | [source, target] => return if ← carry program moves folders source target then 0 else 1
  | names =>
    let target := names.getLast?.getD ""
    match ← lookAt target with
    | .ok .folder => forEach names.dropLast fun source => carry program moves folders source target
    | .ok (.file _) =>
      tell (program ++ ": target '" ++ target ++ "': " ++ explain .notDirectory)
      return 1
    | .error trouble =>
      tell (program ++ ": target '" ++ target ++ "': " ++ explain trouble)
      return 1

/-- Remove files, and folders if asked. -/
def removeAll (args : List String) : Run Nat := do
  let (letters, names) := splitOptions args
  let force := letters.contains 'f'
  let folders := letters.any fun c => c == 'r' || c == 'R'
  if names.isEmpty && !force then return ← lacks "rm" "missing operand"
  forEach names fun name => do
    let s ← get
    let refusal (trouble : Trouble) :=
      refuse ("rm: cannot remove '" ++ name ++ "': " ++ explain trouble)
    match s.disk.look (s.path name) with
    | .error trouble => if force then return true else refusal trouble
    | .ok .folder =>
      if !folders then refusal .isDirectory
      else match s.disk.remove (s.path name) with
        | .ok disk =>
          set { s with disk }
          return true
        | .error _ => return false
    | .ok (.file _) =>
      match s.disk.remove (s.path name) with
      | .ok disk =>
        set { s with disk }
        return true
      | .error _ => return false

/-- Make files that are not there. -/
def touchAll (args : List String) : Run Nat := do
  let (letters, names) := splitOptions args
  if names.isEmpty then return ← lacks "touch" "missing file operand"
  forEach names fun name => do
    match ← lookAt name with
    | .ok _ => return true
    | .error trouble =>
      if letters.contains 'c' || (← writeFile name "") then return true
      refuse ("touch: cannot touch '" ++ name ++ "': " ++ explain trouble)

/-- Make folders. -/
def makeAll (args : List String) : Run Nat := do
  let (letters, names) := splitOptions args
  if names.isEmpty then return ← lacks "mkdir" "missing operand"
  forEach names fun name => do
    let s ← get
    let refusal (trouble : Trouble) :=
      refuse ("mkdir: cannot create directory '" ++ name ++ "': " ++ explain trouble)
    if letters.contains 'p' then
      match s.disk.makeFolders (s.path name) with
      | .ok disk =>
        set { s with disk }
        return true
      | .error _ =>
        match s.disk.look (s.path name) with
        | .ok _ => refusal .present
        | .error trouble => refusal trouble
    else match s.disk.locate (s.path name) with
      | .error trouble => refusal trouble
      | .ok p =>
        if (s.disk.entry? p).isSome then refusal .present
        else
          set { s with disk := s.disk.put p .folder }
          return true

/-- Remove empty folders. -/
def removeFolders (args : List String) : Run Nat := do
  let (_, names) := splitOptions args
  if names.isEmpty then return ← lacks "rmdir" "missing operand"
  forEach names fun name => do
    let s ← get
    let refusal (text : String) := refuse ("rmdir: failed to remove '" ++ name ++ "': " ++ text)
    match s.disk.look (s.path name), s.disk.locate (s.path name) with
    | .ok .folder, .ok p =>
      if s.disk.entries.any fun (q, _) => q ≠ p && p.contains q then
        refusal "Directory not empty"
      else
        set { s with disk := { s.disk with entries := s.disk.entries.filter (·.1 ≠ p) } }
        return true
    | .error trouble, _ => refusal (explain trouble)
    | _, _ => refusal (explain .notDirectory)

/-- List folders and files. -/
def listAll (args : List String) : Run Nat := do
  let (letters, names) := splitOptions args
  let shown (name : String) := !name.startsWith "." || letters.any fun c => c == 'a' || c == 'A'
  let around := if letters.contains 'a' then [".", ".."] else []
  let mut files := []
  let mut folders := []
  let mut status := 0
  for name in (if names.isEmpty then ["."] else names).mergeSort (· ≤ ·) do
    let s ← get
    match s.disk.look (s.path name), s.disk.locate (s.path name) with
    | .ok .folder, .ok p => folders := folders ++ [(name, around ++ (s.disk.names p).filter shown)]
    | .ok (.file _), _ => files := files ++ [name]
    | .error trouble, _ =>
      tell ("ls: cannot access '" ++ name ++ "': " ++ explain trouble)
      status := 2
    | _, _ => status := 2
  let lines (names : List String) := String.join (names.map (· ++ "\n"))
  let blocks := folders.map fun (name, inside) =>
    (if names.length > 1 then name ++ ":\n" else "") ++ lines inside
  let blocks := if files.isEmpty then blocks else lines files :: blocks
  print 1 (String.intercalate "\n" blocks)
  return status

/-! ## Texts -/

/-- The lines of a text, each with its break. -/
def linesWithBreaks (text : String) : List String :=
  let parts := text.splitOn "\n"
  parts.dropLast.map (· ++ "\n") ++ (parts.getLast?.toList.filter (!·.isEmpty))

/-- The count that an option gives, and the names. -/
def readCount (letter : Char) : List String → Nat × List String
  | [] => (10, [])
  | word :: rest =>
    match word.toList with
    | ['-', c] =>
      if c == letter then ((rest.headD "").toNat?.getD 10, rest.drop 1)
      else if c.isDigit then (c.toNat - '0'.toNat, rest)
      else
        let (n, names) := readCount letter rest
        (n, word :: names)
    | '-' :: c :: cs =>
      let digits := if c == letter then cs else c :: cs
      match (String.ofList digits).toNat? with
      | some n => (n, rest)
      | none => readCount letter rest
    | _ =>
      let (n, names) := readCount letter rest
      (n, word :: names)

/-- Show the first or the last lines or characters of files. -/
def showEnd (program : String) (front : Bool) (args : List String) : Run Nat := do
  let bytes := args.any (·.startsWith "-c")
  let (n, names) := readCount (if bytes then 'c' else 'n') args
  forEach (if names.isEmpty then ["-"] else names) fun name => do
    let some text ← contentOf program name | return false
    if bytes then
      let cs := text.toList
      print 1 (String.ofList (if front then cs.take n else cs.drop (cs.length - n)))
    else
      let ls := linesWithBreaks text
      print 1 (String.join (if front then ls.take n else ls.drop (ls.length - n)))
    return true

/-- Count lines, words and bytes. -/
def countAll (args : List String) : Run Nat := do
  let (letters, names) := splitOptions args
  forEach (if names.isEmpty then ["-"] else names) fun name => do
    let some text ← contentOf "wc" name | return false
    let lines := text.toList.count '\n'
    let words := ((text.split Char.isWhitespace).toList.filter (!·.isEmpty)).length
    let counts := (if letters.isEmpty || letters.contains 'l' then [lines] else [])
      ++ (if letters.isEmpty || letters.contains 'w' then [words] else [])
      ++ (if letters.isEmpty || letters.contains 'c' then [text.length] else [])
    let width := if counts.length = 1 then 1 else if names.isEmpty then 7
      else (toString text.length).length
    let shown := counts.map fun n =>
      String.ofList (List.replicate (width - (toString n).length) ' ') ++ toString n
    print 1 (String.intercalate " " shown ++ (if names.isEmpty then "" else " " ++ name) ++ "\n")
    return true

/-- Show the input and write it into files. -/
def copyInput (args : List String) : Run Nat := do
  let (letters, names) := splitOptions args
  let text := (← get).input
  modify fun s => { s with input := "" }
  print 1 text
  forEach names fun name => do
    let before := match ← lookAt name with
      | .ok (.file content) => if letters.contains 'a' then content else ""
      | _ => ""
    if ← writeFile name (before ++ text) then return true
    refuse ("tee: " ++ name ++ ": " ++ explain (← writeTrouble name))

/-- The folder part of a path. -/
def folderPart (path : String) : String :=
  let back := path.toList.reverse.dropWhile (· == '/')
  if back.isEmpty then (if path.isEmpty then "." else "/")
  else if !back.contains '/' then "."
  else
    let above := (back.dropWhile (· != '/')).dropWhile (· == '/')
    if above.isEmpty then "/" else String.ofList above.reverse

/-- The last part of a path without an ending. -/
def namePart (path ending : String) : String :=
  let name := if path.isEmpty then "" else Path.base path
  if !ending.isEmpty && name.endsWith ending && name ≠ ending then
    String.ofList (name.toList.take (name.length - ending.length))
  else name

/-- Print the numbers of a range. -/
def printRange (args : List String) : Run Nat := do
  match args.mapM String.toInt? with
  | some [last] => numbers 1 1 last
  | some [first, last] => numbers first 1 last
  | some [first, step, last] => numbers first step last
  | _ => lacks "seq" "missing operand"
where
  numbers (first step last : Int) : Run Nat := do
    let count := if step = 0 then 0 else ((last - first) / step + 1).toNat
    print 1 (String.join ((List.range count).map fun (k : Nat) => toString (first + step * Int.ofNat k) ++ "\n"))
    return 0

/-- A text is a time: a number, maybe with the letter of a unit. -/
def isTime (text : String) : Bool :=
  let cs := text.toList
  let number := if cs.getLast?.any (['s', 'm', 'h', 'd'].contains ·) then cs.dropLast else cs
  number.any Char.isDigit && number.all (fun c => c.isDigit || c == '.') && number.count '.' ≤ 1

/-- Wait; the time is not measured. -/
def sleep (args : List String) : Run Nat := do
  match args with
  | [] => lacks "sleep" "missing operand"
  | _ =>
    match args.find? (!isTime ·) with
    | some a => lacks "sleep" ("invalid time interval '" ++ a ++ "'")
    | none =>
      let waits := args.any fun a => a.toList.any fun c => c.isDigit && c != '0'
      modify fun s => { s with slept := s.slept || waits }
      return 0

/-- Print the value of an operator between two arguments. -/
def calculate (args : List String) : Run Nat := do
  let finish (text : String) : Run Nat := do
    print 1 (text ++ "\n")
    return if text = "" || text = "0" then 1 else 0
  let refusal (text : String) : Run Nat := do
    tell ("expr: " ++ text)
    return 2
  match args with
  | [x] => finish x
  | ["length", x] => finish (toString x.length)
  | [x, operator, y] =>
    let numbers (f : Int → Int → Option Int) : Run Nat :=
      match x.toInt?, y.toInt? with
      | some a, some b => match f a b with
        | some n => finish (toString n)
        | none => refusal "division by zero"
      | _, _ => refusal "non-integer argument"
    let order : Ordering := match x.toInt?, y.toInt? with
      | some a, some b => compare a b
      | _, _ => compare x y
    let holds (b : Bool) : Run Nat := finish (if b then "1" else "0")
    let isNull (s : String) : Bool := s = "" || s = "0"
    match operator with
    | "+" => numbers fun a b => some (a + b)
    | "-" => numbers fun a b => some (a - b)
    | "*" => numbers fun a b => some (a * b)
    | "/" => numbers fun a b => if b = 0 then none else some (a.tdiv b)
    | "%" => numbers fun a b => if b = 0 then none else some (a.tmod b)
    | "=" | "==" => holds (order == .eq)
    | "!=" => holds (order != .eq)
    | "<" => holds (order == .lt)
    | "<=" => holds (order != .gt)
    | ">" => holds (order == .gt)
    | ">=" => holds (order != .lt)
    | "|" => finish (if isNull x then (if isNull y then "0" else y) else x)
    | "&" => finish (if isNull x || isNull y then "0" else x)
    | _ => refusal ("syntax error: unexpected argument '" ++ operator ++ "'")
  | [] => do
    let _ ← lacks "expr" "missing operand"
    return 2
  | _ :: x :: _ => refusal ("syntax error: unexpected argument '" ++ x ++ "'")

/-- Whether a mode lets files be run; none if it leaves that as it is. -/
def letsRun? (mode : String) : Option Bool :=
  match mode.toList with
  | [] => none
  | c :: cs =>
    if c.isDigit then
      let digits := (c :: cs).map fun d => d.toNat - '0'.toNat
      some (digits.any fun d => d % 2 = 1)
    else
      let action := (c :: cs).dropWhile fun d => ['u', 'g', 'o', 'a'].contains d
      match action with
      | '+' :: letters => if letters.contains 'x' then some true else none
      | '-' :: letters => if letters.contains 'x' then some false else none
      | '=' :: letters => some (letters.contains 'x')
      | _ => none

/-- Say who may run files. -/
def changeModes (args : List String) : Run Nat :=
  match args.filter (· ≠ "-R") with
  | [] => lacks "chmod" "missing operand"
  | [mode] => lacks "chmod" ("missing operand after '" ++ mode ++ "'")
  | mode :: names => forEach names fun name => do
    match ← lookAt name with
    | .error trouble => refuse ("chmod: cannot access '" ++ name ++ "': " ++ explain trouble)
    | .ok _ =>
      let s ← get
      if let .ok p := s.disk.locate (s.path name) then
        let others := s.runnable.filter (· ≠ p)
        match letsRun? mode with
        | some true => set { s with runnable := p :: others }
        | some false => set { s with runnable := others }
        | none => pure ()
      return true

/-- Print arguments as they are. -/
def printWords : List String → Run Nat
  | "-e" :: words => do
    print 1 (echoText words)
    return 0
  | words => do
    let bare := words.head? == some "-n"
    print 1 (String.intercalate " " (if bare then words.drop 1 else words) ++ if bare then "" else "\n")
    return 0

/-- A file of a program. -/
def programFolders : List String :=
  ["/bin/", "/usr/bin/"]

/-- The programs that are known here, apart from the shell. -/
def tool? (name : String) : Option (List String → Run Nat) :=
  match name with
  | "true" => some fun _ => return 0
  | "false" => some fun _ => return 1
  | "cat" => some fun args => concatenate (splitOptions args).2
  | "cp" => some (carryAll "cp" false)
  | "ln" => some (carryAll "ln" false)
  | "mv" => some (carryAll "mv" true)
  | "rm" => some removeAll
  | "touch" => some touchAll
  | "mkdir" => some makeAll
  | "rmdir" => some removeFolders
  | "ls" => some listAll
  | "head" => some (showEnd "head" true)
  | "tail" => some (showEnd "tail" false)
  | "wc" => some countAll
  | "tee" => some copyInput
  | "seq" => some printRange
  | "chmod" => some changeModes
  | "echo" => some printWords
  | "printf" => some printFormat
  | "test" => some fun args => return if ← test args then 0 else 1
  | "pwd" => some fun _ => do
    print 1 (fromRoot (← get).dir ++ "\n")
    return 0
  | "uname" => some fun _ => do
    print 1 "Linux\n"
    return 0
  | "sleep" => some sleep
  | "expr" => some calculate
  | "basename" => some fun args => do
    print 1 (namePart (args.headD "") (args.getD 1 "") ++ "\n")
    return 0
  | "dirname" => some fun args => do
    print 1 (folderPart (args.headD "") ++ "\n")
    return 0
  | _ => none

/-- A program that can be run here. -/
def isProgram (name : String) : Bool :=
  name = "sh" || name = "env" || (tool? name).isSome

/-- The name of a program without the folder in which it is found. -/
def programName? (command : String) : Option String :=
  if command.contains '/' then
    programFolders.findSome? fun folder =>
      let name := Path.base command
      if command = folder ++ name && isProgram name then some name else none
  else if isProgram command then some command
  else none

end Tangent.Shell
