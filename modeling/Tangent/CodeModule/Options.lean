import Tangent.Error.Basic
import Tangent.Identifier

/-!
# Options of the code generator
-/

namespace Tangent.CodeModule

structure Options where
  /-- What the names of internal symbols start with; empty for the name of the module. -/
  stem : String := ""
  /-- Generate a gateway for MATLAB. -/
  withMex : Bool := false
  /-- Generate a main function. -/
  withMain : Bool := false
  /-- Generate C++ instead of C. -/
  cpp : Bool := false
  /-- The type of real numbers. -/
  realType : String := "double"
  /-- Keep scalars in the work vector instead of in local variables. -/
  scalarsInWork : Bool := false
  /-- Generate a header. -/
  withHeader : Bool := false
  /-- The directory of the generated files. -/
  dir : String := "."

namespace Options

def issues (o : Options) : List Issue :=
  (if o.stem ≠ "" && !isIdentifier o.stem then [.badIdentifier "prefix" o.stem] else [])
    ++ (if isTypeName o.realType then [] else [.badRealType o.realType])
    ++ (if o.dir = "" then [.noDirectory] else [])

/-- Everything that is wrong with the options is reported together. -/
def validate (o : Options) : Result Unit :=
  match Error.combine? (o.issues.map .issue) with
  | some e => .error e
  | none => .ok ()

/-- How the names of source files end. -/
def suffix (o : Options) : String :=
  if o.cpp then ".cpp" else ".c"

end Options

end Tangent.CodeModule
