/-!
# Decimal digits of exact quotients

A positive quotient `num / den` has a decimal exponent, the power of ten of its first digit
(`exponent10`). Rounded to `n` significant digits it becomes a `Decimal`, a whole number times a
power of ten, where an exact tie goes to the even neighbour (`rounded`).
-/

namespace Tangent

/-- The number `significand * 10^scale`. -/
structure Decimal where
  significand : Nat
  scale : Int
deriving DecidableEq

namespace Decimal

/-- The number of decimal digits of `n`, less one. -/
def log10 (n : Nat) : Nat :=
  if h : n < 10 then 0 else log10 (n / 10) + 1
termination_by n
decreasing_by omega

/-- The power of ten of the first digit of `num / den`. -/
def exponent10 (num den : Nat) : Int :=
  if den ≤ num then Int.ofNat (log10 (num / den))
  else -(Int.ofNat (log10 ((den - 1) / num)) + 1)

/-- The quotient rounded to the nearest whole number, a tie to the even one. -/
def roundDiv (num den : Nat) : Nat :=
  let q := num / den
  let r := num % den
  if 2 * r < den then q
  else if 2 * r > den then q + 1
  else if q % 2 = 0 then q else q + 1

/-- The quotient in units of `10^scale`, as a numerator and a denominator. -/
def inUnits (num den : Nat) (scale : Int) : Nat × Nat :=
  (num * Nat.pow 10 (-scale).toNat, den * Nat.pow 10 scale.toNat)

/-- The quotient `num / den` rounded to `n` significant digits. -/
def rounded (n num den : Nat) : Decimal :=
  let scale := exponent10 num den - (Int.ofNat n - 1)
  let (a, b) := inUnits num den scale
  let s := roundDiv a b
  if s = Nat.pow 10 n then ⟨Nat.pow 10 (n - 1), scale + 1⟩ else ⟨s, scale⟩

end Decimal

end Tangent
