import Tangent.Numeric.Binary64

/-!
# Sine, cosine and tangent

An angle is first brought into the eighth of a turn around zero. From an angle of moderate size
whole quarters of a turn are subtracted, in three parts so that little is lost. What is left of a
large angle is read off its product with the number of eighths in a radian, which is known to
more binary places than any double has: of that product the 128 bits below a whole turn are kept,
as two words.
-/

namespace Tangent.Numeric

def pi : Float := 3.141592653589793

/-! ## The number of eighths of a turn in a radian -/

/-- The arc tangent of one over `n`, in units of one over `unit`. -/
def arcTangentOfInverse (unit n terms : Nat) : Int :=
  ((List.range terms).map fun k =>
    let term := Int.ofNat (unit / (Nat.pow n (2 * k + 1) * (2 * k + 1)))
    if k % 2 = 0 then term else -term).foldr (· + ·) 0

/-- The binary places of the number of eighths in a radian. -/
def anglePlaces : Nat := 1216

/-- Half a turn in units of `2^(-1280)` radians: four times the difference between four arc
tangents of one fifth and one of one over 239. -/
def halfTurn : Nat :=
  let unit := Nat.pow 2 1280
  (4 * (4 * arcTangentOfInverse unit 5 300 - arcTangentOfInverse unit 239 90)).toNat

/-- Four over half a turn, with `anglePlaces` binary places. -/
def eighthsInRadian : Nat :=
  Nat.pow 2 (anglePlaces + 1282) / halfTurn

/-! ## Reduction -/

/-- From this angle on whole quarters of a turn are not subtracted. -/
def largeAngle : Float := 536870912

/-- An angle as a number of quarters of a turn, up to four, and what is left in radians. -/
structure Reduced where
  quarters : Nat
  rest : Float

/-- The number of leading zeros of a word. -/
def leadingZeros (w : UInt64) : Nat :=
  if w = 0 then 64 else 63 - w.toNat.log2

/-- The number between zero and one whose first binary places are the word `hi`, continued by
the front of the word `lo`. -/
def ofPlaces (hi lo : UInt64) : Float :=
  let zeros := leadingZeros hi
  let shift := zeros + 1
  let mantissa := (hi.toNat <<< shift ||| lo.toNat >>> (64 - shift)) % Nat.pow 2 64
  Binary64.scale false (Nat.pow 2 52 + mantissa >>> 12) (-53 - Int.ofNat zeros)

/-- The reduction of the large angle `mantissa * 2^exponent`. -/
def reduceLarge (mantissa : Nat) (exponent : Int) : Reduced :=
  let product := (mantissa * eighthsInRadian) >>> (Int.ofNat anglePlaces - 125 - exponent).toNat
  let hi := UInt64.ofNat (product >>> 64)
  let lo := UInt64.ofNat product
  let eighths := (hi >>> 61).toNat
  let fraction := ofPlaces (hi <<< 3 ||| lo >>> 61) lo
  if eighths % 2 = 1 then
    { quarters := (eighths + 1) / 2 % 4, rest := (fraction - 1) * (pi / 4) }
  else
    { quarters := eighths / 2, rest := fraction * (pi / 4) }

/-- The reduction of an angle that is neither negative nor large. An eighth of a turn is the sum
of the three numbers, and the products with the first two are exact. -/
def reduceModerate (x : Float) : Reduced :=
  let eighths := (x * (4 / pi)).toUInt64.toNat
  let quarters := (eighths + 1) / 2
  let y := Float.ofNat (2 * quarters)
  { quarters := quarters % 4
    rest := ((x - y * 7.85398125648498535156e-1) - y * 3.77489470793079817668e-8)
      - y * 2.69515142907905952645e-15 }

/-- The reduction of the magnitude of an angle. -/
def reduceAngle (x : Float) : Reduced :=
  match Binary64.ofFloat x with
  | .finite _ mantissa exponent =>
    if x.abs < largeAngle then reduceModerate x.abs else reduceLarge mantissa exponent
  | _ => { quarters := 0, rest := 0.0 / 0.0 }

/-! ## The functions -/

def sin (x : Float) : Float :=
  let r := reduceAngle x
  let y := match r.quarters with
    | 0 => r.rest.sin
    | 1 => r.rest.cos
    | 2 => -r.rest.sin
    | _ => -r.rest.cos
  if x == 0 then x else if x < 0 then -y else y

def cos (x : Float) : Float :=
  let r := reduceAngle x
  match r.quarters with
  | 0 => r.rest.cos
  | 1 => -r.rest.sin
  | 2 => -r.rest.cos
  | _ => r.rest.sin

def tan (x : Float) : Float :=
  let r := reduceAngle x
  let y := if r.quarters % 2 = 1 then -1 / r.rest.tan else r.rest.tan
  if x == 0 then x else if x < 0 then -y else y

/-! ## Their inverses -/

/-- The angle whose sine is `x`. Near one it is what is missing to a quarter of a turn. -/
def asin (x : Float) : Float :=
  let m := x.abs
  let side := (1 - m * m).sqrt
  if x == 0 then x
  else if m > 1 then 0.0 / 0.0
  else
    let y := if m > 0.7 then pi / 2 - (side / m).atan else (m / side).atan
    if x < 0 then -y else y

def acos (x : Float) : Float :=
  pi / 2 - asin x

end Tangent.Numeric
