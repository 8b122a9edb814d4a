import Tangent.Shell.Run
import Tangent.Toolchain.Process

/-!
# The programs of a machine

On a machine with a shell and a few other programs, a command is looked up first, if its name has no
slash; then the directory has to be there; then the file of the command has to be a program.
-/

namespace Tangent.Shell

open Toolchain (Ending)

/-- The programs that can be started here. -/
def programs : List String :=
  ["true", "false", "echo", "sh"]

/-- The program of a command. -/
def program? (command : String) : Option String :=
  if command.endsWith "/" then none
  else if command.contains '/' then
    let text := (Path.ofText command).text
    programs.find? fun name => programFolders.any fun folder => folder ++ name = text
  else programs.find? (· = command)

/-- A shell that is started in a directory. To a shell every byte is a character. -/
def shellProcess (disk : Disk) (dir name : String) (args : List String) : Ending × Disk :=
  let start : State := {
    disk := disk.mapTexts Text.spread
    dir := Text.spread dir
    name := Text.spread name
    args := []
    bindings := givenBindings ++ firstBindings
    line := 0 }
  let run := startShell endurance start.name (args.map Text.spread)
  let (ending, s) := run.run start
  let status : Int := match ending with
    | .error (.killed _) => -1
    | _ => s.status
  (.finished status (Text.gather (s.buffers.headD "")), s.disk.mapTexts Text.gather)

/-- A program that is started in a directory. -/
def process (disk : Disk) (dir program name : String) (args : List String) : Ending × Disk :=
  match program with
  | "true" => (.finished 0 "", disk)
  | "false" => (.finished 1 "", disk)
  | "echo" => (.finished 0 (String.intercalate " " args ++ "\n"), disk)
  | _ => shellProcess disk dir name args

/-- Why something that is not a program cannot be run. -/
def obstacle (disk : Disk) (dir name : String) : Trouble :=
  match disk.look (if name.startsWith "/" then name else dir ++ "/" ++ name) with
  | .ok _ => .refused
  | .error trouble => trouble

/-- Why a command is not found. The root is looked up by its name as well. -/
def notFound? (name : String) : Option String :=
  if name = "/" then some Trouble.isDirectory.text
  else if !name.contains '/' && (program? name).isNone then
    some "executable file not found in $PATH"
  else none

/-- The file of a command that is found. -/
def file (name : String) : String :=
  if name.contains '/' then name else "/usr/bin/" ++ name

/-- Start a command in a directory. -/
def start (disk : Disk) (dir : String) (command : List String) : Ending × Disk :=
  let name := command.headD ""
  let failed (cause : String) : Ending × Disk := (.notStarted cause, disk)
  let stopped (trouble : Trouble) := failed ("fork/exec " ++ file name ++ ": " ++ trouble.text)
  let dir := if dir.isEmpty then "." else dir
  if name.isEmpty then failed "exec: no command"
  else if let some reason := notFound? name then
    failed ("exec: " ++ Text.quote name ++ ": " ++ reason)
  else if dir.contains '\x00' then failed "exec: environment variable contains NUL"
  else match disk.look dir with
    | .error trouble => failed ("chdir " ++ dir ++ ": " ++ trouble.text)
    | .ok entry =>
      if command.any (·.contains '\x00') then stopped .invalid
      else match entry, program? name with
        | .file _, _ => stopped .notDirectory
        | .folder, some program => process disk dir program name (command.drop 1)
        | .folder, none => stopped (obstacle disk dir name)

instance : Toolchain.Processes := ⟨start⟩

end Tangent.Shell
