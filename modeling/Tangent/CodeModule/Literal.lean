import Tangent.Decimal.Text

/-!
# C literals

Whole numbers below `2^31` are written with all their digits and a point, every other number with
seventeen significant digits, which are enough to read it back.
-/

namespace Tangent.CodeModule

/-- The greatest whole number that is written with all its digits. -/
def greatestWhole : Nat := 2147483647

/-- The whole number `m * 2^e`, if it is one. -/
def whole? (m : Nat) (e : Int) : Option Nat :=
  if 0 ≤ e then some (m * Nat.pow 2 e.toNat)
  else if m % Nat.pow 2 (-e).toNat = 0 then some (m / Nat.pow 2 (-e).toNat)
  else none

/-- A double as a C literal. -/
def literal (v : Float) : String :=
  match Binary64.ofFloat v with
  | .nan => "NAN"
  | .infinite negative => if negative then "-INFINITY" else "INFINITY"
  | .finite negative m e =>
    match whole? m e with
    | some n =>
      if n ≤ greatestWhole then (if negative then "-" else "") ++ toString n ++ "."
      else Decimal.scientific 17 v
    | none => Decimal.scientific 17 v

end Tangent.CodeModule
