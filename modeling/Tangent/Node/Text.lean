import Tangent.Catalog.CText
import Tangent.Node.Basic

/-!
# The text of an expression

An expression is written as it would be in C, except that assignments and lifted values, which
leave no trace there, are written as calls. Shared expressions are repeated.
-/

namespace Tangent

namespace Node

variable {K : Type} [Numeral K]

def text : Node K → String
  | const _ v => Numeral.numeral v
  | symbol _ name => name
  | unary _ .assign x => "assign(" ++ x.text ++ ")"
  | unary _ u x => u.write x.text
  | binary _ .lift x y => "lift(" ++ x.text ++ "," ++ y.text ++ ")"
  | binary _ b x y => b.write x.text y.text

end Node

end Tangent
