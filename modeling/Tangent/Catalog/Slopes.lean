import Tangent.Catalog.Scalar

/-!
# Derivative rules

`Unary.slope` is the derivative of a unary operation and `Binary.slopes` the pair of partial
derivatives of a binary one, written over any `Algebra`: run over numbers they give values, run
over nodes they give expressions. The value `f` of the operation itself is an argument, because
many derivatives are shortest in terms of it. Comparisons, rounding and logical operations are
flat, so their derivatives are zero, and so is the derivative in a tag, a hint or a constant
exponent.
-/

namespace Tangent

variable {m : Type → Type} [Monad m] {E : Type}

/-- The derivative of a unary operation at `x`, where its value is `f`. -/
def Unary.slope (A : Algebra m E) (u : Unary) (x f : E) : m E :=
  match u with
  | .assign => A.literal .one
  | .neg => A.literal .negOne
  | .exp => pure f
  | .log => A.unary .inv x
  | .sqrt => do A.unary .inv (← A.unary .twice f)
  | .sq => A.unary .twice x
  | .twice => A.literal .two
  | .sin => A.unary .cos x
  | .cos => do A.unary .neg (← A.unary .sin x)
  | .tan => do A.unary .inv (← A.unary .sq (← A.unary .cos x))
  | .asin => do
    A.unary .inv (← A.unary .sqrt (← A.binary .sub (← A.literal .one) (← A.unary .sq x)))
  | .acos => do
    A.unary .neg (← A.unary .inv
      (← A.unary .sqrt (← A.binary .sub (← A.literal .one) (← A.unary .sq x))))
  | .atan => do A.unary .inv (← A.binary .add (← A.literal .one) (← A.unary .sq x))
  | .erf => do
    A.binary .mul (← A.literal .erfSlope) (← A.unary .exp (← A.unary .neg (← A.unary .sq x)))
  | .fabs => A.unary .sign x
  | .inv => do A.unary .neg (← A.unary .sq f)
  | .sinh => A.unary .cosh x
  | .cosh => A.unary .sinh x
  | .tanh => do A.binary .sub (← A.literal .one) (← A.unary .sq f)
  | .asinh => do
    A.unary .inv (← A.unary .sqrt (← A.binary .add (← A.literal .one) (← A.unary .sq x)))
  | .acosh => do
    A.binary .div (← A.unary .inv (← A.unary .sqrt (← A.binary .sub x (← A.literal .one))))
      (← A.unary .sqrt (← A.binary .add x (← A.literal .one)))
  | .atanh => do A.unary .inv (← A.binary .sub (← A.literal .one) (← A.unary .sq x))
  | .erfinv => do A.binary .mul (← A.literal .erfinvSlope) (← A.unary .exp (← A.unary .sq f))
  | .floor | .ceil | .not | .sign => A.literal .zero

/-- The partial derivatives of a binary operation at `(x, y)`, where its value is `f`. -/
def Binary.slopes (A : Algebra m E) (b : Binary) (x y f : E) : m (E × E) :=
  match b with
  | .lift | .printme => do return (← A.literal .one, ← A.literal .zero)
  | .add => do return (← A.literal .one, ← A.literal .one)
  | .sub => do return (← A.literal .one, ← A.literal .negOne)
  | .mul => pure (y, x)
  | .div => do return (← A.unary .inv y, ← A.binary .div (← A.unary .neg f) y)
  | .pow => do
    return (← A.binary .mul y (← A.binary .pow x (← A.binary .sub y (← A.literal .one))),
      ← A.binary .mul (← A.unary .log x) f)
  | .constpow => do
    return (← A.binary .mul y (← A.binary .constpow x (← A.binary .sub y (← A.literal .one))),
      ← A.literal .zero)
  | .fmod => do return (← A.literal .one, ← A.binary .div (← A.binary .sub f x) y)
  | .copysign => do
    return (← A.binary .copysign (← A.literal .one) y, ← A.literal .zero)
  | .fmin => do
    let dx ← A.binary .le x y
    return (dx, ← A.unary .not dx)
  | .fmax => do
    let dx ← A.binary .le y x
    return (dx, ← A.unary .not dx)
  | .atan2 => do
    let t ← A.binary .add (← A.unary .sq x) (← A.unary .sq y)
    return (← A.binary .div y t, ← A.unary .neg (← A.binary .div x t))
  | .ifElseZero => do
    return (← A.literal .zero, ← A.binary .ifElseZero x (← A.literal .one))
  | .lt | .le | .eq | .ne | .and | .or => do return (← A.literal .zero, ← A.literal .zero)

/-- The derivatives of an operation given by its number, as a pair of numbers: the second is zero
for a unary operation, and both are for a leaf and outside the catalog. -/
def Opcode.slopes {K : Type} [Scalar K] (c : Opcode) (x y f : K) : K × K :=
  match c.op? with
  | some (.unary u) => (Unary.slope (m := Id) (Scalar.algebra K) u x f, Scalar.zero)
  | some (.binary b) => Binary.slopes (m := Id) (Scalar.algebra K) b x y f
  | _ => (Scalar.zero, Scalar.zero)

end Tangent
