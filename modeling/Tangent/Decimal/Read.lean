/-!
# Reading decimals

A decimal number is digits with an optional point and an optional exponent. It is read as the
nearest double; a number that is too large for a double cannot be read.
-/

namespace Tangent.Decimal

/-- The digits at the front of a text, and the rest. -/
def takeDigits (cs : List Char) : List Char × List Char :=
  (cs.takeWhile Char.isDigit, cs.dropWhile Char.isDigit)

/-- The number that digits stand for. -/
def ofDigits (ds : List Char) : Nat :=
  ds.foldl (fun n c => 10 * n + (c.toNat - '0'.toNat)) 0

/-- The sign at the front of a text: whether it is negative, and the rest. -/
def takeSign : List Char → Bool × List Char
  | '-' :: rest => (true, rest)
  | '+' :: rest => (false, rest)
  | cs => (false, cs)

/-- The exponent at the end of a text; an empty text is the exponent zero. -/
def exponent? : List Char → Option Int
  | [] => some 0
  | c :: rest =>
    if c == 'e' || c == 'E' then
      let (negative, rest) := takeSign rest
      match takeDigits rest with
      | ([], _) => none
      | (ds, []) => some (if negative then -Int.ofNat (ofDigits ds) else Int.ofNat (ofDigits ds))
      | _ => none
    else none

/-- The double nearest to `m * 10^e`, unless it is infinite. -/
def toFloat? (m : Nat) (e : Int) : Option Float :=
  let magnitude := Int.ofNat (toString m).length + e
  if m = 0 || magnitude < -400 then some 0
  else if 400 < magnitude then none
  else
    let v := if e < 0 then Float.ofScientific m true (-e).toNat
      else Float.ofScientific m false e.toNat
    if v.isFinite then some v else none

/-- A decimal number without blanks: digits before or after the point, and maybe an exponent. -/
def read? (s : String) : Option Float :=
  let (negative, cs) := takeSign s.toList
  let (whole, cs) := takeDigits cs
  let (fraction, cs) := match cs with
    | '.' :: rest => takeDigits rest
    | _ => ([], cs)
  if whole.isEmpty && fraction.isEmpty then none
  else do
    let e ← exponent? cs
    let v ← toFloat? (ofDigits (whole ++ fraction)) (e - Int.ofNat fraction.length)
    return if negative then -v else v

end Tangent.Decimal
