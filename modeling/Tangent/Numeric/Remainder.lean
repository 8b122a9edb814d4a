import Tangent.Numeric.Binary64

/-!
# Exact operations on doubles

The remainder of a division truncated toward zero, which is always a double and is computed on
the exact values; the sign of one number put on another; and the smaller and the larger of two
numbers, where a number wins over an undefined operand and the negative zero is the smaller zero.
-/

namespace Tangent.Numeric

/-- The remainder of `x / y` truncated toward zero, with the sign of `x`. It is undefined for an
infinite `x` and for a zero `y`. -/
def remainder (x y : Float) : Float :=
  match Binary64.ofFloat x, Binary64.ofFloat y with
  | .finite _ _ _, .infinite _ => x
  | .finite negative mx ex, .finite _ my ey =>
    if my = 0 then 0.0 / 0.0
    else
      let e := min ex ey
      let r := (mx * Nat.pow 2 (ex - e).toNat) % (my * Nat.pow 2 (ey - e).toNat)
      Binary64.scale negative r e
  | _, _ => 0.0 / 0.0

/-- The magnitude of `x` with the sign of `y`. -/
def withSign (x y : Float) : Float :=
  Float.ofBits ((x.toBits &&& 0x7fffffffffffffff) ||| (y.toBits &&& 0x8000000000000000))

/-- The smaller number. -/
def smaller (x y : Float) : Float :=
  if x.isNaN then y
  else if y.isNaN then x
  else if x == 0 && y == 0 then (if Binary64.signBit x.toBits then x else y)
  else if x < y then x else y

/-- The larger number. -/
def larger (x y : Float) : Float :=
  if x.isNaN then y
  else if y.isNaN then x
  else if x == 0 && y == 0 then (if Binary64.signBit x.toBits then y else x)
  else if x > y then x else y

/-- One with the sign of `x`; a zero and an undefined number are kept. -/
def signOf (x : Float) : Float :=
  if x < 0 then -1 else if x > 0 then 1 else x

/-- One for true and zero for false. -/
def indicator (p : Bool) : Float :=
  if p then 1 else 0

end Tangent.Numeric
