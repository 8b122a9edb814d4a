import Tangent.CodeModule.Files
import Tangent.CodeModule.Generate
import Tangent.Text.Blank
import Tangent.Toolchain.Process
import Tangent.Toolchain.Words

/-!
# Building a library

The code of a module is generated and written, and a toolchain makes a library of it. The toolchain
runs in the directory of the files. It sees a checked disk only: on any other one it finds an empty
working directory.
-/

namespace Tangent.Toolchain

/-- The name of the library of a module. -/
def libraryFile (name : String) : String :=
  name ++ ".so"

/-- What a failed command printed, without the white space around it. -/
def complaint? (output : String) : Option String :=
  let text := Text.trim output
  if text.isEmpty then none else some text

/-- Remove what an earlier build left. All failures are reported together. -/
def removeStale (paths : List String) : Work Unit := do
  let (disk, errors) := paths.foldl (fun (disk, errors) path =>
      match (Disk.remove disk path).within ("cannot remove " ++ path ++ ": ") with
      | .ok disk => (disk, errors)
      | .error e => (disk, errors ++ [e])) ((← get).disk, [])
  modify fun w => { w with disk }
  if let some e := Error.combine? errors then
    throw e

/-- Run the toolchain. -/
def runCommand [Processes] (dir : String) (command : List String) : Work Unit := do
  let w ← get
  let shared := w.disk.medium = .checked
  let (ending, disk) := Processes.start (if shared then w.disk else {}) dir command
  if shared then
    set { w with disk }
  match ending with
  | .finished 0 _ => return
  | .finished status output => throw (.toolchain command status (complaint? output))
  | .notStarted cause => throw (.toolchain command (-1) (some cause))

/-- Generate, write and build a module. The result is the path of the library. -/
def compile [Processes] (options : CodeModule.Options) (name parent toolchain : String)
    (routines : List (Routine Float)) : Work String := do
  let (generated, records) := CodeModule.generateAll options name parent routines
  Work.note records
  let g ← generated
  let some words := words? toolchain | throw (.issue (.unreadableCommand toolchain))
  if words.isEmpty then
    throw (.issue .noCommand)
  let library := libraryFile name
  removeStale ([g.sourceFile, g.headerFile, library].map (Path.join options.dir))
  let _ ← g.write options.dir
  let command := words ++ ["-shared", g.sourceFile, "-o", library]
  Work.note #[{
    level := .debug
    logger := Log.named parent name
    message := "toolchain"
    fields := [("dir", .text options.dir), ("command", .text (String.intercalate " " command))] }]
  runCommand options.dir command
  return Path.join options.dir library

end Tangent.Toolchain
