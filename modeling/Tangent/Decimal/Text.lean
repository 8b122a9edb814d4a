import Tangent.Catalog.Scalar
import Tangent.Decimal.Shortest
import Tangent.Numeric.Binary64

/-!
# Doubles as text

Two ways to write a double. `Decimal.general` takes the fewest digits that read back and writes
them positionally where the decimal exponent is between -4 and 5, and in exponent form elsewhere.
`Decimal.scientific n` writes `n` significant digits, correctly rounded, in exponent form. The
exponent has a sign and at least two digits.
-/

namespace Tangent.Decimal

/-- The exponent part: a sign and at least two digits. -/
def exponentText (x : Int) : String :=
  let digits := toString x.natAbs
  "e" ++ (if x < 0 then "-" else "+") ++ (if digits.length < 2 then "0" ++ digits else digits)

/-- Digits with a point after the first one. -/
def pointed (digits : List Char) : String :=
  match digits with
  | [] => ""
  | [d] => String.singleton d
  | d :: rest => String.ofList (d :: '.' :: rest)

/-- The digits of a decimal and the power of ten of the first one. -/
def digits (d : Decimal) : List Char × Int :=
  let ds := (toString d.significand).toList
  (ds, d.scale + Int.ofNat ds.length - 1)

def dropTrailingZeros (ds : List Char) : List Char :=
  (ds.reverse.dropWhile (· == '0')).reverse

/-- Digits whose first one stands for `10^x`, without an exponent. -/
def positional (ds : List Char) (x : Int) : String :=
  let zeros := fun (n : Nat) => List.replicate n '0'
  if x < 0 then
    String.ofList ('0' :: '.' :: zeros (-x - 1).toNat ++ ds)
  else
    let whole := x.toNat + 1
    let padded := ds ++ zeros (whole - ds.length)
    let fraction := padded.drop whole
    String.ofList (padded.take whole ++ (if fraction.isEmpty then [] else '.' :: fraction))

/-- The fewest digits that read back: positional from `10^-4` to below `10^6`. -/
def general (v : Float) : String :=
  match Binary64.ofFloat v with
  | .nan => "NaN"
  | .infinite negative => if negative then "-Inf" else "+Inf"
  | .finite negative m e =>
    let sign := if negative then "-" else ""
    if m = 0 then sign ++ "0"
    else
      let (ds, x) := (shortest m e).digits
      let ds := dropTrailingZeros ds
      if x < -4 ∨ 6 ≤ x then sign ++ pointed ds ++ exponentText x
      else sign ++ positional ds x

/-- Exactly `n` significant digits in exponent form, for a finite number. -/
def scientific (n : Nat) (v : Float) : String :=
  match Binary64.ofFloat v with
  | .finite negative m e =>
    let sign := if negative then "-" else ""
    if m = 0 then sign ++ pointed (List.replicate n '0') ++ exponentText 0
    else
      let (num, den) := quotient m e
      let (ds, x) := (rounded n num den).digits
      sign ++ pointed ds ++ exponentText x
  | _ => general v

instance : Numeral Float := ⟨general⟩

end Tangent.Decimal
