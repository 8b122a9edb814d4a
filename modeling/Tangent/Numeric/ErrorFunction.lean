import Tangent.Numeric.Angle

/-!
# The error function and its inverse

The error function is summed from the series
`erf x = (2/√π) e^(-x²) (x + 2x³/3 + 4x⁵/(3·5) + …)`, all of whose terms have the sign of `x`, so
that nothing cancels; from 6 on it is one to the last bit. The inverse is a quotient of two
polynomials on each of three ranges: in the square of the argument up to 0.85, and beyond that
in the square root of the logarithm of what is missing to one.
-/

namespace Tangent.Numeric

/-- The sum of the remaining terms of the series, from the term `t` that is number `k`. -/
def erfTail (square : Float) : Nat → Float → Float → Float
  | 0, _, t => t
  | n + 1, k, t => t + erfTail square n (k + 1) (t * (2 * square) / (2 * k + 3))

/-- The error function. -/
def erf (x : Float) : Float :=
  if x.isNaN then x
  else if x ≥ 6 then 1
  else if x ≤ -6 then -1
  else 2 / pi.sqrt * (-(x * x)).exp * erfTail (x * x) 160 0 x

/-- The value of a polynomial, its coefficients given from the constant one up. -/
def polynomial (coefficients : List Float) (x : Float) : Float :=
  coefficients.foldr (fun c acc => acc * x + c) 0

/-- The inverse of the error function between zero and one. -/
def erfinvPositive (x : Float) : Float :=
  if x ≤ 0.85 then
    let r := 0.180625 - 0.25 * x * x
    x * polynomial [1.1975323115670912564578e0, 4.7072688112383978012285e1,
        6.9706266534389598238465e2, 4.8548868893843886794648e3, 1.6235862515167575384252e4,
        2.3782041382114385731252e4, 1.1819493347062294404278e4, 8.8709406962545514830200e2] r
      / polynomial [1.0000000000000000000e0, 4.2313330701600911252e1, 6.8718700749205790830e2,
        5.3941960214247511077e3, 2.1213794301586595867e4, 3.9307895800092710610e4,
        2.8729085735721942674e4, 5.2264952788528545610e3] r
  else
    let r := (0.693147180559945309417232121458176568 - (1.0 - x).log).sqrt
    if r ≤ 5 then
      let r := r - 1.6
      polynomial [1.42343711074968357734e0, 4.63033784615654529590e0, 5.76949722146069140550e0,
          3.64784832476320460504e0, 1.27045825245236838258e0, 2.41780725177450611770e-1,
          2.27238449892691845833e-2, 7.74545014278341407640e-4] r
        / polynomial [1.4142135623730950488016887e0, 2.9036514445419946173133295e0,
          2.3707661626024532365971225e0, 9.7547832001787427186894837e-1,
          2.0945065210512749128288442e-1, 2.1494160384252876777097297e-2,
          7.7441459065157709165577218e-4, 1.4859850019840355905497876e-9] r
    else
      let r := r - 5
      polynomial [6.65790464350110377720e0, 5.46378491116411436990e0, 1.78482653991729133580e0,
          2.96560571828504891230e-1, 2.65321895265761230930e-2, 1.24266094738807843860e-3,
          2.71155556874348757815e-5, 2.01033439929228813265e-7] r
        / polynomial [1.414213562373095048801689e0, 8.482908416595164588112026e-1,
          1.936480946950659106176712e-1, 2.103693768272068968719679e-2,
          1.112800997078859844711555e-3, 2.611088405080593625138020e-5,
          2.010321207683943062279931e-7, 2.891024605872965461538222e-15] r

/-- The inverse of the error function: infinite at one and minus one, undefined beyond. -/
def erfinv (x : Float) : Float :=
  if x.isNaN || x < -1 || x > 1 then 0.0 / 0.0
  else if x == 1 then 1.0 / 0.0
  else if x == -1 then -1.0 / 0.0
  else if x < 0 then -erfinvPositive (-x)
  else erfinvPositive x

end Tangent.Numeric
