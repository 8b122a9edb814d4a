import Tangent.Catalog.Scalar

/-!
# Nodes

A node is a constant, a free symbol, or an operation on other nodes. Every node carries a number
of its own, which is what makes it one and the same node wherever it occurs: two symbols of one
name are different symbols, and two copies of one expression are different nodes.

Numbers are drawn from a supply, so everything that makes nodes runs in the monad `Build`. The
keys of shared patterns come from the same supply.
-/

namespace Tangent

inductive Node (K : Type) where
  | const (id : Nat) (value : K)
  | symbol (id : Nat) (name : String)
  | unary (id : Nat) (op : Unary) (x : Node K)
  | binary (id : Nat) (op : Binary) (x y : Node K)

namespace Node

variable {K : Type}

/-- The number of the node. -/
def id : Node K → Nat
  | const i _ | symbol i _ | unary i _ _ | binary i _ _ _ => i

/-- The two are one node. -/
def same (x y : Node K) : Bool :=
  x.id == y.id

def op : Node K → Op
  | const _ _ => .const
  | symbol _ _ => .symbol
  | unary _ u _ => .unary u
  | binary _ b _ _ => .binary b

/-- The operands, from left to right. -/
def operands : Node K → List (Node K)
  | const _ _ | symbol _ _ => []
  | unary _ _ x => [x]
  | binary _ _ x y => [x, y]

/-- The number of operations and leaves in the expression, counted with repetitions. -/
def size : Node K → Nat
  | const _ _ | symbol _ _ => 1
  | unary _ _ x => x.size + 1
  | binary _ _ x y => x.size + y.size + 1

theorem size_pos (n : Node K) : 0 < n.size := by
  cases n <;> simp [size]

/-- The value of a constant. -/
def value? : Node K → Option K
  | const _ v => some v
  | _ => none

/-- The name of a symbol. -/
def name? : Node K → Option String
  | symbol _ s => some s
  | _ => none

def isConst (n : Node K) : Bool :=
  n.value?.isSome

def isSymbol (n : Node K) : Bool :=
  n.name?.isSome

section Scalar

variable [Scalar K]

/-- The node is a constant equal to `v` as a number. -/
def isValue (n : Node K) (v : K) : Bool :=
  n.value?.any (Scalar.equals · v)

def isLiteral (n : Node K) (l : Literal) : Bool :=
  n.isValue (Scalar.literal l)

/-- The node is the constant zero, of either sign. -/
def isZero (n : Node K) : Bool :=
  n.isLiteral .zero

end Scalar

end Node

/-! ## The supply of numbers -/

abbrev Build := StateM Nat

/-- A number that was not drawn before. -/
def Build.fresh : Build Nat :=
  modifyGet fun next => (next, next + 1)

namespace Node

variable {K : Type}

def newConst (v : K) : Build (Node K) :=
  return .const (← Build.fresh) v

def newSymbol (name : String) : Build (Node K) :=
  return .symbol (← Build.fresh) name

end Node

end Tangent
