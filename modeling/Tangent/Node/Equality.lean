import Tangent.Node.Basic

/-!
# Equality up to a depth

Two nodes are equal at depth zero if they are one node. At a greater depth they are also equal if
they are constants that no observation tells apart, or the same operation on operands that are
equal one level less deep; the operands of a commutative operation may be swapped. Symbols are
equal only to themselves.
-/

namespace Tangent.Node

variable {K : Type} [Scalar K]

/-- The two nodes compute the same expression, as far as `depth` levels of operands tell. -/
def equalUpTo : Nat → Node K → Node K → Bool
  | 0, m, n => m.same n
  | depth + 1, m, n =>
    m.same n ||
    match m, n with
    | const _ v, const _ w => Scalar.identical v w
    | unary _ u x, unary _ u' x' => u == u' && equalUpTo depth x x'
    | binary _ b x y, binary _ b' x' y' =>
      b == b' &&
        (equalUpTo depth x x' && equalUpTo depth y y' ||
          b.commutative && equalUpTo depth x y' && equalUpTo depth y x')
    | _, _ => false

end Tangent.Node
