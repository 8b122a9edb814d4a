/-!
# Floating point numbers, read exactly

`Binary64.ofFloat` reads the bits of a double: not a number, an infinity, or a sign with a
natural number `m` and a power `e` that stand for `m * 2^e`. All exact arithmetic on doubles
starts from here.
-/

namespace Tangent

/-- What the bits of a double say. -/
inductive Binary64
  | nan
  | infinite (negative : Bool)
  /-- The number `mantissa * 2^exponent`, up to its sign. -/
  | finite (negative : Bool) (mantissa : Nat) (exponent : Int)
deriving DecidableEq

namespace Binary64

def signBit (bits : UInt64) : Bool :=
  bits &&& 0x8000000000000000 != 0

def ofBits (bits : UInt64) : Binary64 :=
  let negative := signBit bits
  let biased := ((bits >>> 52) &&& 0x7ff).toNat
  let fraction := (bits &&& 0xfffffffffffff).toNat
  if biased = 2047 then
    if fraction = 0 then infinite negative else nan
  else if biased = 0 then
    finite negative fraction (-1074)
  else
    finite negative (Nat.pow 2 52 + fraction) (Int.ofNat biased - 1075)

def ofFloat (v : Float) : Binary64 :=
  ofBits v.toBits

/-- A natural number times a power of two, as a double. Exact whenever the product is one. -/
def scale (negative : Bool) (mantissa : Nat) (exponent : Int) : Float :=
  let v := (Float.ofNat mantissa).scaleB exponent
  if negative then -v else v

end Binary64

end Tangent
