import Tangent.Numeric.Remainder

/-!
# Exponentials, logarithms and powers

A power is computed in two parts. The whole part of the exponent is done by repeated squaring of
the fraction of the base, with the powers of two counted apart; what is left of the exponent lies
within one half and is done by an exponential of a logarithm.
-/

namespace Tangent.Numeric

/-- The exponential. It is infinite as soon as the nearest power of two is. -/
def exp (x : Float) : Float :=
  if x * 1.4426950408889634 ≥ 1023.5 then 1.0 / 0.0 else x.exp

/-- The logarithm. A number too small for a full fraction is read as if its fraction stood after a
leading one, at the lowest power of two. -/
def log (x : Float) : Float :=
  let fraction := x.toBits
  if 0 < fraction && fraction < 0x10000000000000 then
    (1 + Binary64.scale false fraction.toNat (-52)).log - 1023 * 0.6931471805599453
  else x.log

/-- The number is whole, and odd. -/
def isOdd (y : Float) : Bool :=
  y.abs < 9007199254740992 && y.abs.floor == y.abs && y.abs.toUInt64 % 2 == 1

/-- A number times a power of two. -/
structure Scaled where
  number : Float
  power : Int

/-- The product of `a` with the `n`-th power of `x`, by repeated squaring. A power of two beyond
every double is multiplied in as it is, and the rest is left out. -/
def Scaled.timesPower (a x : Scaled) (n : Nat) : Scaled :=
  if n = 0 then a
  else if x.power < -4096 || 4096 < x.power then { a with power := a.power + x.power }
  else
    let a := if n % 2 = 1 then ⟨a.number * x.number, a.power + x.power⟩ else a
    let y := x.number * x.number
    let x : Scaled := if y < 0.5 then ⟨y + y, 2 * x.power - 1⟩ else ⟨y, 2 * x.power⟩
    timesPower a x (n / 2)
termination_by n

/-- A power whose exponent is finite, and neither base nor exponent is zero. -/
def finitePower (x y : Float) : Float :=
  let whole := y.abs.floor
  let part := y.abs - whole
  if part != 0 && x < 0 then 0.0 / 0.0
  else if whole ≥ 9223372036854775808 then
    if x == -1 then 1
    else if (x.abs < 1) == (y > 0) then 0
    else 1.0 / 0.0
  else
    let (whole, part) := if part > 0.5 then (whole + 1, part - 1) else (whole, part)
    let start := if part == 0 then 1 else exp (part * log x)
    let (fraction, power) := x.frExp
    let p := Scaled.timesPower ⟨start, 0⟩ ⟨fraction, power⟩ whole.toUInt64.toNat
    if y < 0 then (1 / p.number).scaleB (-p.power) else p.number.scaleB p.power

/-- A power of zero. -/
def powerOfZero (x y : Float) : Float :=
  let size := if y < 0 then 1.0 / 0.0 else 0.0
  if isOdd y then withSign size x else size

/-- The power of `x` to the exponent `y`. -/
def pow (x y : Float) : Float :=
  if y == 0 || x == 1 then 1
  else if y == 1 then x
  else if x.isNaN || y.isNaN then 0.0 / 0.0
  else if x == 0 then powerOfZero x y
  else if y.isInf then
    if x == -1 then 1
    else if (x.abs < 1) == (y > 0) then 0
    else 1.0 / 0.0
  else if x.isInf then
    if x < 0 then powerOfZero (-0.0) (-y)
    else if y < 0 then 0
    else 1.0 / 0.0
  else if y == 0.5 then x.sqrt
  else if y == -0.5 then 1 / x.sqrt
  else finitePower x y

/-- The hyperbolic sine. For large numbers it is half an exponential, and overflows with it. -/
def sinh (x : Float) : Float :=
  if x > 21 then exp x * 0.5
  else if x < -21 then -(exp (-x) * 0.5)
  else x.sinh

/-- The hyperbolic cosine. -/
def cosh (x : Float) : Float :=
  if x.abs > 21 then exp x.abs * 0.5 else x.cosh

end Tangent.Numeric
