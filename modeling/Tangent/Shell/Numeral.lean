import Tangent.Decimal.Read
import Tangent.Decimal.Text

/-!
# Numbers in formats

A place in a format says how a number is written there: with a sign, with a least number of digits,
and filled up to a width. Real numbers are written with a number of digits that are correctly rounded,
a tie to the even digit. The arguments of a format are read as numbers as far as they go.
-/

namespace Tangent.Shell

/-- A place for an argument in a format. -/
structure Place where
  /-- The letter of its kind. -/
  kind : Char
  /-- The argument stands at the left. -/
  left : Bool := false
  /-- The place is filled with zeros. -/
  zeros : Bool := false
  /-- Numbers that are not negative have a plus sign, or else a blank. -/
  plus : Bool := false
  blank : Bool := false
  /-- Numbers show their base or their point. -/
  marked : Bool := false
  width : Nat := 0
  precision : Option Nat := none

namespace Place

/-- Fill a text up to the width with blanks. -/
def fill (p : Place) (text : String) : String :=
  let blanks := String.ofList (List.replicate (p.width - text.length) ' ')
  if p.left then text ++ blanks else blanks ++ text

/-- Fill digits up to the width, where zeros go behind what stands in front of the digits. -/
def fillDigits (p : Place) (front digits : String) : String :=
  if p.zeros && !p.left then
    front ++ String.ofList (List.replicate (p.width - (front ++ digits).length) '0') ++ digits
  else p.fill (front ++ digits)

/-- The sign of a number. -/
def sign (p : Place) (negative : Bool) : String :=
  if negative then "-" else if p.plus then "+" else if p.blank then " " else ""

/-! ## Whole numbers -/

/-- The digits of a number in a base, at least as many as are asked for. -/
def digits (p : Place) (base n : Nat) : String :=
  let ds := if n = 0 && p.precision = some 0 then [] else Nat.toDigits base n
  String.ofList (List.replicate (p.precision.getD 1 - ds.length) '0' ++ ds)

/-- A whole number with its sign. -/
def signed (p : Place) (n : Int) : String :=
  { p with zeros := p.zeros && p.precision.isNone }.fillDigits (p.sign (n < 0)) (p.digits 10 n.natAbs)

/-- A whole number without a sign, in the base that the kind of the place says. -/
def unsigned (p : Place) (n : Nat) : String :=
  let p := { p with zeros := p.zeros && p.precision.isNone }
  match p.kind with
  | 'o' =>
    let ds := p.digits 8 n
    p.fillDigits "" (if p.marked && !ds.startsWith "0" then "0" ++ ds else ds)
  | 'x' => p.fillDigits (if p.marked && n ≠ 0 then "0x" else "") (p.digits 16 n)
  | 'X' => p.fillDigits (if p.marked && n ≠ 0 then "0X" else "") (p.digits 16 n).toUpper
  | _ => p.fillDigits "" (p.digits 10 n)

/-! ## Real numbers -/

/-- Digits with a point in front of the last `n`; without such digits it is there only if it is to be
shown. -/
def withPoint (p : Place) (ds : List Char) (n : Nat) : String :=
  let ds := List.replicate (n + 1 - ds.length) '0' ++ ds
  let whole := ds.length - n
  String.ofList (ds.take whole ++ (if n = 0 && !p.marked then [] else ['.']) ++ ds.drop whole)

/-- The quotient with `n` digits behind the point. -/
def fixed (p : Place) (n num den : Nat) : String :=
  p.withPoint (toString (Decimal.roundDiv (num * Nat.pow 10 n) den)).toList n

/-- The quotient rounded to `n + 1` digits, and the power of ten of the first one. -/
def leading (n num den : Nat) : List Char × Int :=
  if num = 0 then (List.replicate (n + 1) '0', 0) else (Decimal.rounded (n + 1) num den).digits

/-- The quotient with `n` digits behind the first one, and a power of ten. -/
def scientific (p : Place) (n num den : Nat) : String :=
  let (ds, x) := leading n num den
  p.withPoint ds n ++ Decimal.exponentText x

/-- A text without the zeros at the end of its fraction. -/
def trimmed (text : String) : String :=
  if !text.contains '.' then text
  else
    let rest := text.toList.reverse.dropWhile (· == '0')
    String.ofList (if rest.head? == some '.' then rest.drop 1 else rest).reverse

/-- The quotient with a number of digits in all, in the shorter of the two ways. -/
def general (p : Place) (n num den : Nat) : String :=
  let n := if n = 0 then 1 else n
  let (ds, x) := leading (n - 1) num den
  let trim (text : String) := if p.marked then text else trimmed text
  if -4 ≤ x && x < n then trim (p.fixed (n - 1 - x).toNat num den)
  else trim (p.withPoint ds (n - 1)) ++ Decimal.exponentText x

/-- The number `m * 2^e` in base 16 with a power of two. -/
def hexadecimal (p : Place) (m : Nat) (e : Int) : String :=
  let power (x : Int) := "p" ++ (if x < 0 then "-" else "+") ++ toString x.natAbs
  let normal := Nat.pow 2 52 ≤ m
  let x : Int := if m = 0 then 0 else if normal then e + 52 else -1022
  match p.precision with
  | some n =>
    let units :=
      if n < 13 then Decimal.roundDiv m (Nat.pow 16 (13 - n)) else m * Nat.pow 16 (n - 13)
    p.withPoint (Nat.toDigits 16 units) n ++ power x
  | none => trimmed (p.withPoint (Nat.toDigits 16 m) 13) ++ power x

/-- A real number, as the kind of the place says. -/
def real (p : Place) (v : Float) : String :=
  let raised (text : String) := if p.kind.isUpper then text.toUpper else text
  let words := { p with zeros := false }
  match Binary64.ofFloat v with
  | .nan => words.fillDigits (p.sign (Binary64.signBit v.toBits)) (raised "nan")
  | .infinite negative => words.fillDigits (p.sign negative) (raised "inf")
  | .finite negative m e =>
    let (num, den) := Decimal.quotient m e
    let n := p.precision.getD 6
    match p.kind.toLower with
    | 'f' => p.fillDigits (p.sign negative) (p.fixed n num den)
    | 'e' => p.fillDigits (p.sign negative) (raised (p.scientific n num den))
    | 'g' => p.fillDigits (p.sign negative) (raised (p.general n num den))
    | _ => p.fillDigits (p.sign negative ++ raised "0x") (raised (p.hexadecimal m e))

end Place

/-! ## Reading arguments -/

/-- A number at the front of a text. -/
structure ReadNumber (α : Type) where
  value : α
  /-- What follows the number; none if there is none. -/
  rest : Option (List Char)
  /-- The number does not fit. -/
  outOfRange : Bool := false

/-- The value of a digit in a base. -/
def digitIn? (base : Nat) (c : Char) : Option Nat :=
  let n := if c.isDigit then c.toNat - '0'.toNat
    else if 'a' ≤ c && c ≤ 'f' then c.toNat - 'a'.toNat + 10
    else if 'A' ≤ c && c ≤ 'F' then c.toNat - 'A'.toNat + 10
    else base
  if n < base then some n else none

/-- The digits of a base at the front of a text, and the rest. -/
def digitsOf (base : Nat) (cs : List Char) : List Nat × List Char :=
  let ds := cs.takeWhile fun c => (digitIn? base c).isSome
  (ds.filterMap (digitIn? base), cs.drop ds.length)

def valueIn (base : Nat) (ds : List Nat) : Nat :=
  ds.foldl (fun n d => n * base + d) 0

/-- Read a whole number in base 8, 10 or 16. -/
def readWhole (cs : List Char) : ReadNumber Int :=
  let (negative, cs) := Decimal.takeSign (cs.dropWhile Char.isWhitespace)
  let number (base : Nat) (cs : List Char) : ReadNumber Int :=
    let (ds, rest) := digitsOf base cs
    let n := Int.ofNat (valueIn base ds)
    { value := if negative then -n else n, rest := if ds.isEmpty then none else some rest }
  match cs with
  | '0' :: x :: d :: _ =>
    if (x == 'x' || x == 'X') && (digitIn? 16 d).isSome then number 16 (cs.drop 2) else number 8 cs
  | '0' :: _ => number 8 cs
  | _ => number 10 cs

/-- A text starts with a word, in letters of any size. -/
def startsWithWord (word : String) (cs : List Char) : Bool :=
  (cs.take word.length).map Char.toLower == word.toList

/-- The exponent at the front of a text behind one of the marks, and the rest. Without digits there is
no exponent. -/
def exponentOf (marks : List Char) (cs : List Char) : Int × List Char :=
  match cs with
  | c :: rest =>
    let (negative, rest) := Decimal.takeSign rest
    let (ds, rest) := digitsOf 10 rest
    if marks.contains c && !ds.isEmpty then
      let n := Int.ofNat (valueIn 10 ds)
      (if negative then -n else n, rest)
    else (0, cs)
  | [] => (0, [])

/-- The digits of a number with a point: all of them, and how many stand behind the point. -/
def mantissaOf (base : Nat) (cs : List Char) : List Nat × Nat × List Char :=
  let (whole, rest) := digitsOf base cs
  match rest with
  | '.' :: more =>
    let (fraction, after) := digitsOf base more
    if whole.isEmpty && fraction.isEmpty then ([], 0, cs)
    else (whole ++ fraction, fraction.length, after)
  | _ => (whole, 0, rest)

/-- The double of a number that may be too large or too small. -/
def fitted (negative : Bool) (isZero : Bool) (v : Option Float) (rest : List Char) : ReadNumber Float :=
  let size := v.getD (1.0 / 0.0)
  { value := if negative then -size else size
    rest := some rest
    outOfRange := v.isNone || (!isZero && size < 2.2250738585072014e-308) }

/-- Read a real number: in base 10 or 16, or one of the words for those that are not finite. -/
def readReal (cs : List Char) : ReadNumber Float :=
  let (negative, cs) := Decimal.takeSign (cs.dropWhile Char.isWhitespace)
  let signed (v : Float) := if negative then -v else v
  let decimal : ReadNumber Float :=
    let (ds, places, rest) := mantissaOf 10 cs
    if ds.isEmpty then { value := 0, rest := none }
    else
      let (x, rest) := exponentOf ['e', 'E'] rest
      let n := valueIn 10 ds
      fitted negative (n = 0) (Decimal.toFloat? n (x - places)) rest
  if startsWithWord "infinity" cs then { value := signed (1.0 / 0.0), rest := some (cs.drop 8) }
  else if startsWithWord "inf" cs then { value := signed (1.0 / 0.0), rest := some (cs.drop 3) }
  else if startsWithWord "nan" cs then
    let rest := cs.drop 3
    let inside := (rest.drop 1).takeWhile fun c => c.isAlphanum || c == '_'
    let closed := rest.head? == some '(' && (rest.drop (inside.length + 1)).head? == some ')'
    let nan := Float.ofBits 0x7ff8000000000000
    { value := if negative then Float.ofBits 0xfff8000000000000 else nan
      rest := some (if closed then rest.drop (inside.length + 2) else rest) }
  else if startsWithWord "0x" cs then
    let (ds, places, rest) := mantissaOf 16 (cs.drop 2)
    if ds.isEmpty then decimal
    else
      let (x, rest) := exponentOf ['p', 'P'] rest
      let n := valueIn 16 ds
      let size := Float.scaleB (Float.ofNat n) (x - 4 * Int.ofNat places)
      fitted negative (n = 0) (if size.isFinite then some size else none) rest
  else decimal

end Tangent.Shell
