import Mathlib.Algebra.Order.Floor.Ring
import Mathlib.Algebra.Order.Group.Unbundled.Abs
import Tangent.Catalog.Scalar

/-!
# The catalog over an ordered field

Sums, quotients, comparisons, rounding, minima, remainders and the like have a meaning in every
ordered field whose elements have whole parts. `arithmetic S` has these operations, and takes all
others from `S`.
-/

namespace Tangent.OrderedField

variable {F : Type} [Field F] [LinearOrder F]

/-- One where `p` holds, and zero elsewhere. -/
def indicator (p : Prop) [Decidable p] : F :=
  if p then 1 else 0

def sign (x : F) : F :=
  if x < 0 then -1 else if 0 < x then 1 else 0

/-- The absolute value of the first number with the sign of the second. -/
def copysign (x y : F) : F :=
  if y < 0 then -|x| else |x|

variable [FloorRing F]

/-- The part of a number in front of the point. -/
def truncate (x : F) : F :=
  if 0 ≤ x then ⌊x⌋ else ⌈x⌉

variable (S : Scalar F)

def literal : Literal → F
  | .zero => 0
  | .one => 1
  | .negOne => -1
  | .two => 1 + 1
  | .half => 1 / (1 + 1)
  | l => S.literal l

def unary : Unary → F → F
  | .assign, x => x
  | .neg, x => -x
  | .twice, x => x + x
  | .floor, x => ⌊x⌋
  | .ceil, x => ⌈x⌉
  | .not, x => indicator (x = 0)
  | .fabs, x => |x|
  | .sign, x => sign x
  | u, x => S.unary u x

def binary : Binary → F → F → F
  | .add, x, y => x + y
  | .sub, x, y => x - y
  | .div, x, y => x / y
  | .lt, x, y => indicator (x < y)
  | .le, x, y => indicator (x ≤ y)
  | .fmod, x, y => x - y * truncate (x / y)
  | .eq, x, y => indicator (x = y)
  | .ne, x, y => indicator (x ≠ y)
  | .and, x, y => indicator (x ≠ 0 ∧ y ≠ 0)
  | .or, x, y => indicator (x ≠ 0 ∨ y ≠ 0)
  | .copysign, x, y => copysign x y
  | .fmin, x, y => min x y
  | .fmax, x, y => max x y
  | .printme, x, _ | .lift, x, _ => x
  | .ifElseZero, x, y => if x ≠ 0 then y else 0
  | b, x, y => S.binary b x y

/-- The operations that an ordered field has are exact. The others are those of `S`. -/
@[reducible] def arithmetic : Scalar F where
  literal := literal S
  unary := unary S
  binary := binary S
  identical x y := decide (x = y)
  equals x y := decide (x = y)

/-- The commutative operations do commute, if products do. -/
theorem binary_comm (hmul : ∀ x y, S.binary .mul x y = S.binary .mul y x) {op : Binary}
    (h : op.commutative) (x y : F) : binary S op x y = binary S op y x := by
  cases op with
  | add => exact add_comm x y
  | mul => exact hmul x y
  | eq => simp only [binary, eq_comm]
  | ne => simp only [binary, ne_comm]
  | and => simp only [binary, and_comm]
  | or => simp only [binary, or_comm]
  | fmin => exact min_comm x y
  | fmax => exact max_comm x y
  | _ => cases h

end Tangent.OrderedField
