import Tangent.Disk.Basic
import Tangent.Log

/-!
# Work on a disk

Work changes a disk and writes records into a log. An error stops it; what was done until then
stays done.
-/

namespace Tangent

structure Workspace where
  disk : Disk
  log : Array Log.Record := #[]

abbrev Work := ExceptT Error (StateM Workspace)

namespace Work

/-- Change the disk. A change that fails leaves the disk as it is. -/
def change (f : Disk → Result Disk) : Work Unit := do
  let w ← get
  let disk ← (f w.disk : Result Disk)
  set { w with disk }

/-- Write records into the log. -/
def note (records : Array Log.Record) : Work Unit :=
  modify fun w => { w with log := w.log ++ records }

end Work

end Tangent
