import Tangent.Catalog.Scalar
import Tangent.Numeric.ErrorFunction
import Tangent.Numeric.Power

/-!
# Doubles as scalars

The interpretation of the catalog on doubles. Arithmetic, rounding, remainders and comparisons
are exact or correctly rounded.
-/

namespace Tangent.Numeric

/-- The angle of the point `(x, y)`, seen from the origin. A point to the left whose slope is too
small for a double is in the upper half. -/
def angleOf (y x : Float) : Float :=
  if x.isNaN || y.isNaN then 0.0 / 0.0
  else if y == 0 then withSign (if Binary64.signBit x.toBits then pi else 0) y
  else if x == 0 then withSign (pi / 2) y
  else if x.isInf then
    let size := if x > 0 then (if y.isInf then pi / 4 else 0)
      else if y.isInf then 3 * pi / 4 else pi
    withSign size y
  else if y.isInf then withSign (pi / 2) y
  else
    let q := (y / x).atan
    if x < 0 then (if q ≤ 0 then q + pi else q - pi) else q

def literal : Literal → Float
  | .zero => 0
  | .one => 1
  | .negOne => -1
  | .two => 2
  | .half => 0.5
  | .erfSlope => 2 / pi.sqrt
  | .erfinvSlope => pi.sqrt / 2

def unary : Unary → Float → Float
  | .assign, x => x
  | .neg, x => -x
  | .exp, x => exp x
  | .log, x => log x
  | .sqrt, x => x.sqrt
  | .sq, x => x * x
  | .twice, x => 2 * x
  | .sin, x => sin x
  | .cos, x => cos x
  | .tan, x => tan x
  | .asin, x => asin x
  | .acos, x => acos x
  | .atan, x => x.atan
  | .floor, x => x.floor
  | .ceil, x => x.ceil
  | .not, x => indicator (x == 0)
  | .erf, x => erf x
  | .fabs, x => x.abs
  | .sign, x => signOf x
  | .inv, x => 1 / x
  | .sinh, x => sinh x
  | .cosh, x => cosh x
  | .tanh, x => x.tanh
  | .asinh, x => x.asinh
  | .acosh, x => x.acosh
  | .atanh, x => x.atanh
  | .erfinv, x => erfinv x

def binary : Binary → Float → Float → Float
  | .add, x, y => x + y
  | .sub, x, y => x - y
  | .mul, x, y => x * y
  | .div, x, y => x / y
  | .pow, x, y | .constpow, x, y => pow x y
  | .lt, x, y => indicator (x < y)
  | .le, x, y => indicator (x ≤ y)
  | .fmod, x, y => remainder x y
  | .eq, x, y => indicator (x == y)
  | .ne, x, y => indicator (x != y)
  | .and, x, y => indicator (x != 0 && y != 0)
  | .or, x, y => indicator (x != 0 || y != 0)
  | .copysign, x, y => withSign x y
  | .fmin, x, y => smaller x y
  | .fmax, x, y => larger x y
  | .printme, x, _ | .lift, x, _ => x
  | .atan2, x, y => angleOf x y
  | .ifElseZero, x, y => if x != 0 then y else 0

instance : Scalar Float where
  literal := literal
  unary := unary
  binary := binary
  identical x y := x.toBits == y.toBits
  equals x y := x == y

end Tangent.Numeric

namespace Tangent

/-- The value of an operation given by its number. A leaf and a number outside the catalog have
none. -/
def Opcode.eval? {K : Type} [Scalar K] (c : Opcode) (x y : K) : Option K :=
  match c.op? with
  | some (.unary u) => some (Scalar.unary u x)
  | some (.binary b) => some (Scalar.binary b x y)
  | _ => none

end Tangent
