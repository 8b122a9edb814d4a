import Tangent.CodeModule.Source
import Tangent.Disk.Workspace

/-!
# Files of generated code
-/

namespace Tangent.CodeModule.Generated

/-- The names and contents of the files: the source, and the header if there is one. -/
def contents (g : Generated) : List (String × String) :=
  (g.sourceFile, g.source) :: if g.header = "" then [] else [(g.headerFile, g.header)]

/-- Write the files into a directory, which is made if it is not there. The result is the list of
their paths. -/
def write (g : Generated) (dir : String) : Work (List String) := do
  Work.change fun d => (d.makeFolders dir).within ("cannot create directory " ++ dir ++ ": ")
  g.contents.mapM fun (name, content) => do
    let path := Path.join dir name
    Work.change fun d => (d.write path content).within ("cannot write " ++ path ++ ": ")
    return path

end Tangent.CodeModule.Generated
