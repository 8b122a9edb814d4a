import Tangent.CodeModule.Emit
import Tangent.CodeModule.Source

/-!
# Generating a module at once
-/

namespace Tangent.CodeModule

/-- The files of a new module with the given routines, and the log of making them. -/
def generateAll (options : Options) (name parent : String) (routines : List (Routine Float)) :
    Result Generated × Array Log.Record :=
  match create options name parent with
  | .error e => (.error e, #[])
  | .ok m =>
    let (result, m) := (routines.forM add).run.run m
    (result.bind fun _ => m.generate, m.records)

end Tangent.CodeModule
