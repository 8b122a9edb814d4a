import Tangent.Error.Basic
import Tangent.Node.Builder

/-!
# Applying operations given by their numbers

An operation number and a list of operands may not go together; then there is no node.
-/

namespace Tangent

/-- Nodes are built, or an error stops the building. -/
abbrev Building := ExceptT Error Build

namespace Builder

variable {K : Type} [Scalar K]

/-- Apply an operation to its operands. Leaves, numbers outside of the catalog and operands of
another number than the operation has are faults. -/
def apply (b : Builder) (c : Opcode) (operands : List (Node K)) : Building (Node K) :=
  match c.op? with
  | some (.unary u) =>
    match operands with
    | [x] => b.unary u x
    | _ => throw (.fault (.operandCount u.name 1 operands.length))
  | some (.binary op) =>
    match operands with
    | [x, y] => b.binary op x y
    | _ => throw (.fault (.operandCount op.name 2 operands.length))
  | _ => throw (.fault (.cannotApply c.text))

/-- The node that is printed, under a tag, when it is evaluated. -/
def printed (b : Builder) (x : Node K) (tag : K) : Build (Node K) := do
  b.binary .printme x (← Node.newConst tag)

end Builder

end Tangent
