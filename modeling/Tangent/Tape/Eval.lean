import Tangent.Log
import Tangent.Numeric.Double
import Tangent.Tape.Basic

/-!
# Evaluation

The values along a tape are computed in one pass: those of the input nonzeros are given, and
every other value comes from values that stand before it.
-/

namespace Tangent

variable {K : Type} [Scalar K]

/-- The value at a position, from the values before it. -/
def Step.eval (w : Array K) : Step K → K
  | symbol _ => Scalar.zero
  | const v => v
  | unary u x => Scalar.unary u (w.getD x Scalar.zero)
  | binary b x y => Scalar.binary b (w.getD x Scalar.zero) (w.getD y Scalar.zero)

/-- Append the value of each step. -/
def Step.evalAll (steps : List (Step K)) (w : Array K) : Array K :=
  steps.foldl (fun w s => w.push (s.eval w)) w

/-- The tag and the value that a step prints. -/
def Step.printed? (w : Array K) : Step K → Option (K × K)
  | binary .printme x y => some (w.getD y Scalar.zero, w.getD x Scalar.zero)
  | _ => none

namespace Tape

/-- The values at all positions. -/
def values (t : Tape K) (args : List (List K)) : Array K :=
  Step.evalAll (t.steps.drop t.width) args.flatten.toArray

/-- The values of the output nonzeros, given those of the input nonzeros. -/
def eval (t : Tape K) (args : List (List K)) : Result (List (List K)) := do
  t.checkShape .input args
  let w := t.values args
  return t.results.map fun positions => positions.map (w.getD · Scalar.zero)

/-- What is printed on the way: a tag and a value each time. -/
def printed (t : Tape K) (args : List (List K)) : List (K × K) :=
  let w := t.values args
  t.steps.filterMap (Step.printed? w)

/-- What is printed on the way, for a log. -/
def records (t : Tape Float) (args : List (List Float)) : List Log.Record :=
  (t.printed args).map fun (tag, value) => {
    level := .info
    logger := ""
    message := "printme"
    fields := [("function", .text t.name), ("tag", .real tag), ("value", .real value)] }

end Tape

end Tangent
