import Std.Data.HashMap
import Tangent.Node.Builder

/-!
# Rebuilding expressions

An expression is rebuilt from its leaves through the rules of a builder. A node that occurs
several times is rebuilt once, so what was shared stays shared.
-/

namespace Tangent.Builder

variable {K : Type} [Scalar K]

/-- What each node was rebuilt to, by the number of the node. -/
abbrev Rebuilt (K : Type) := Std.HashMap Nat (Node K)

/-- Rebuild one node, unless it is already rebuilt. -/
def rebuild (b : Builder) : Node K → StateT (Rebuilt K) Build (Node K)
  | .const id v => pure (.const id v)
  | .symbol id name => pure (.symbol id name)
  | .unary id u x => do
    match (← get)[id]? with
    | some r => return r
    | none =>
      let r ← b.unary u (← b.rebuild x)
      modify (·.insert id r)
      return r
  | .binary id op x y => do
    match (← get)[id]? with
    | some r => return r
    | none =>
      let x' ← b.rebuild x
      let y' ← b.rebuild y
      let r ← b.binary op x' y'
      modify (·.insert id r)
      return r

/-- Rebuild several expressions together. -/
def simplify (b : Builder) (nodes : List (Node K)) : Build (List (Node K)) := do
  let (out, _) ← (nodes.mapM b.rebuild).run ∅
  return out

end Tangent.Builder
