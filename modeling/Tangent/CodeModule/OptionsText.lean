import Tangent.CodeModule.Options
import Tangent.Yaml.Decode
import Tangent.Yaml.Read

/-!
# Options from a document
-/

namespace Tangent.CodeModule.Options

/-- Put one entry of a document into the options. -/
def put (name : String) (y : Yaml) (o : Options) : Yaml.Decoding Options :=
  match name with
  | "prefix" => return { o with stem := ← y.replace Yaml.text o.stem }
  | "mex" => return { o with withMex := ← y.replace Yaml.bool o.withMex }
  | "main" => return { o with withMain := ← y.replace Yaml.bool o.withMain }
  | "cpp" => return { o with cpp := ← y.replace Yaml.bool o.cpp }
  | "real_t" => return { o with realType := ← y.replace Yaml.text o.realType }
  | "codegen_scalars" =>
    return { o with scalarsInWork := ← y.replace Yaml.bool o.scalarsInWork }
  | "with_header" => return { o with withHeader := ← y.replace Yaml.bool o.withHeader }
  | "dir" => return { o with dir := ← y.replace Yaml.text o.dir }
  | _ => Yaml.flawed o

/-- The options that a document gives. Without a document they are the default ones. -/
def ofText (text : String) : Result Options := do
  let o ← match Yaml.read? text with
    | none => .error (.undecodable "code generator options")
    | some none => .ok {}
    | some (some y) =>
      match (y.replace (Yaml.record put {}) {}).result with
      | .ok o => .ok o
      | .error stop => .error (stop.error "code generator options")
  o.validate
  return o

end Tangent.CodeModule.Options
