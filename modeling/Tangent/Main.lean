import Tangent.Command.Run

/-!
# The program

Files that the arguments name are read first, and files that are new or changed are written at the
end. Everything between is `Command.run`.
-/

namespace Tangent.Command

/-- The texts in the arguments that may name a file. -/
def namedPaths (args : List String) : List String :=
  args ++ args.map fun arg => String.ofList ((arg.toList.dropWhile (· ≠ '=')).drop 1)

/-- Put a file onto the disk, if there is one. -/
def loadFile (disk : Disk) (path : String) : IO Disk := do
  try
    return disk.addFile path (← IO.FS.readFile path)
  catch _ =>
    return disk

/-- Write a file and make the folders that lead to it. -/
def saveFile (path content : String) : IO Unit := do
  IO.FS.createDirAll (Path.ofText path).parent.text
  IO.FS.writeFile path content

end Tangent.Command

open Tangent Command in
/-- Run the program on the files of the working directory. -/
def main (args : List String) : IO UInt32 := do
  let disk ← (namedPaths args).foldlM loadFile {}
  let outcome := run args disk
  for record in outcome.log do
    IO.eprintln record.render
  for (path, content) in outcome.disk.files do
    unless (path, content) ∈ disk.files do
      saveFile path content
  IO.print outcome.output
  match outcome.error with
  | none => return 0
  | some e =>
    IO.eprintln e.message
    return 1
