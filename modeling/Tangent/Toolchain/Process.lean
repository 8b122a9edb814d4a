import Tangent.Disk.Basic

/-!
# Processes

A toolchain is a command that is started in a directory of a checked disk. What can be started, and
what it does to the disk, depends on the machine. So this is a parameter of building a library.
-/

namespace Tangent.Toolchain

/-- How a process ended. -/
inductive Ending
  /-- It left a status, -1 if it was killed, and what it printed on both channels. -/
  | finished (status : Int) (output : String)
  /-- It was never started. -/
  | notStarted (cause : String)

/-- What a command does that is started in a directory of a disk. -/
class Processes where
  start (disk : Disk) (dir : String) (command : List String) : Ending × Disk

end Tangent.Toolchain
