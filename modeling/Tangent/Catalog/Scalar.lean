import Tangent.Catalog.Op

/-!
# Scalars

The graphs, the simplifier and the derivative rules do not depend on what a number is. A
`Scalar` type interprets the catalog and the few constants that the rules mention, and has two
notions of sameness: `identical`, which tells apart whatever can be told apart, and `equals`,
which is numerical equality. For floating point numbers the two differ on signed zeros and on
undefined values.

An `Algebra` is what a derivative rule is written over: constants and operations with an effect.
Numbers form one without any effect (`Scalar.algebra`); the nodes of an expression form another,
whose effect is the allocation of new nodes.
-/

namespace Tangent

/-- The constants that the simplification rules and the derivative rules mention: `erfSlope` is the
slope `2/√π` of the error function at zero, and `erfinvSlope` that of its inverse. -/
inductive Literal
  | zero | one | negOne | two | half | erfSlope | erfinvSlope
deriving DecidableEq

/-- A type of numbers on which the catalog is interpreted. -/
class Scalar (K : Type) where
  literal : Literal → K
  unary : Unary → K → K
  binary : Binary → K → K → K
  /-- No observation tells the two numbers apart. -/
  identical : K → K → Bool
  /-- The two numbers are equal as numbers. -/
  equals : K → K → Bool

namespace Scalar

variable {K : Type} [Scalar K]

def zero : K := literal .zero

def isZero (v : K) : Bool := equals v (literal .zero)

/-- The operation keeps a zero zero. -/
def keepsZero₁ (K : Type) [Scalar K] (u : Unary) : Bool :=
  isZero (unary u (zero : K))

/-- The operation takes two zeros to zero. -/
def keepsZero₂ (K : Type) [Scalar K] (b : Binary) : Bool :=
  isZero (binary b (zero : K) zero)

end Scalar

/-- Numbers that have a text. -/
class Numeral (K : Type) where
  numeral : K → String

/-- Constants and operations with an effect `m`. -/
structure Algebra (m : Type → Type) (E : Type) where
  literal : Literal → m E
  unary : Unary → E → m E
  binary : Binary → E → E → m E

/-- Numbers, without any effect. -/
def Scalar.algebra (K : Type) [Scalar K] : Algebra Id K where
  literal := (Scalar.literal : Literal → K)
  unary := (Scalar.unary : Unary → K → K)
  binary := (Scalar.binary : Binary → K → K → K)

end Tangent
