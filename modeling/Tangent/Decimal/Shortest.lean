import Tangent.Decimal.Digits

/-!
# The shortest decimal that reads back

The reals that round to a double form an interval around it, which contains its ends if the
mantissa is even. `shortest` looks at grids of decimals with one, two, up to seventeen digits,
and takes the first grid on which one of the two neighbours of the double lies in the interval;
if both do, the nearer one, and the even one of two equally near.
-/

namespace Tangent.Decimal

/-- The interval of reals that round to `m * 2^e`, in quarters of the last place: its ends around
the value `4m`. Just above a power of two the lower neighbour is at half the distance. -/
def interval (m : Nat) (e : Int) : Nat × Nat :=
  (if m = Nat.pow 2 52 ∧ -1074 < e then 4 * m - 1 else 4 * m - 2, 4 * m + 2)

/-- A decimal of the grid `10^scale` that reads back as `m * 2^e`, if a neighbour of that number
on the grid does. -/
def onGrid? (m : Nat) (e : Int) (scale : Int) : Option Decimal :=
  let two := e - 2
  let up := Nat.pow 2 two.toNat * Nat.pow 10 (-scale).toNat
  let unit := Nat.pow 2 (-two).toNat * Nat.pow 10 scale.toNat
  let value := 4 * m * up
  let (lo, hi) := interval m e
  let inside := fun (d : Nat) =>
    if m % 2 = 0 then decide (lo * up ≤ d * unit ∧ d * unit ≤ hi * up)
    else decide (lo * up < d * unit ∧ d * unit < hi * up)
  let d := value / unit
  match inside d, inside (d + 1) with
  | true, true =>
    let below := value - d * unit
    let above := (d + 1) * unit - value
    if below < above ∨ (below = above ∧ d % 2 = 0) then some ⟨d, scale⟩ else some ⟨d + 1, scale⟩
  | true, false => some ⟨d, scale⟩
  | false, true => some ⟨d + 1, scale⟩
  | false, false => none

/-- The positive number `m * 2^e` as a quotient. -/
def quotient (m : Nat) (e : Int) : Nat × Nat :=
  (m * Nat.pow 2 e.toNat, Nat.pow 2 (-e).toNat)

/-- The shortest decimal that reads back as the positive double `m * 2^e`. -/
def shortest (m : Nat) (e : Int) : Decimal :=
  let (num, den) := quotient m e
  let x := exponent10 num den
  ((List.range 17).findSome? fun n => onGrid? m e (x - Int.ofNat n)).getD (rounded 17 num den)

end Tangent.Decimal
