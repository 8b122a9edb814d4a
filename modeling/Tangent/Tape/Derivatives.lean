import Tangent.Catalog.Slopes
import Tangent.Tape.Masks

/-!
# Derivatives along a tape

Tangents are passed forward: the tangent of a node is the sum of the tangents of its operands,
each times the derivative in that operand. Adjoints are passed backward: the adjoint of a node,
times the derivative in an operand, is added to the adjoint of that operand. Several directions
are handled together, and share the nodes of the derivatives.

An adjoint that is zero is not there at all, and contributions that are zero are dropped.
-/

namespace Tangent

variable {K : Type} [Scalar K]

namespace Tape

/-- Seeds have the patterns of the matrices of one side. -/
def checkSeeds (t : Tape K) (side : Side) (seeds : List (List (SparseMatrix K))) :
    Result Unit :=
  seeds.zipIdx.forM fun (seed, d) => do
    let matrices := t.sideOf side
    if seed.length ≠ matrices.length then
      .inconsistent (.seedCount t.name d side seed.length matrices.length)
    let wrong := (seed.zip matrices).zipIdx.find? fun ((s, m), _) => s.pattern ≠ m.pattern
    if let some ((s, m), i) := wrong then
      .inconsistent (.seedPattern t.name d side i s.pattern.describe m.pattern.describe)

/-- For each nonzero of the matrices of a direction, the seeds of all directions. -/
def seedRows (count : Nat) (zero : Node K) (seeds : List (List (SparseMatrix K))) :
    List (List (Node K)) :=
  let flat := seeds.map fun seed => seed.flatMap (·.nonzeros)
  (List.range count).map fun p => flat.map (·.getD p zero)

/-- For each direction, matrices like the given ones whose nonzeros are looked up by direction and
node. -/
def sensitivities (matrices : List (SparseMatrix K)) (directions : Nat)
    (entry : Nat → Node K → Node K) : List (List (SparseMatrix K)) :=
  (List.range directions).map fun d =>
    matrices.map fun m => { m with nonzeros := m.nonzeros.map (entry d) }

end Tape

namespace Builder

/-! ## Forward -/

/-- The tangents of a node in all directions, from those before it. -/
def tangents (b : Builder) (t : Tape K) (directions : Nat) (zero : Node K)
    (w : Array (List (Node K))) (n : Node K) : Build (List (Node K)) := do
  match n with
  | .const _ _ | .symbol _ _ => return List.replicate directions zero
  | .unary _ u x =>
    let dx ← u.slope (b.algebra K) x n
    (w.getD (t.position x) []).mapM (b.binary .mul dx)
  | .binary _ op x y =>
    let (dx, dy) ← op.slopes (b.algebra K) x y n
    ((w.getD (t.position x) []).zip (w.getD (t.position y) [])).mapM fun (tx, ty) => do
      let left ← b.binary .mul dx tx
      let right ← b.binary .mul dy ty
      b.binary .add left right

/-- The tangents at all positions. -/
def forwardSweep (b : Builder) (t : Tape K) (zero : Node K)
    (seeds : List (List (SparseMatrix K))) : Build (Array (List (Node K))) :=
  (t.nodes.drop t.width).foldlM
    (fun w n => return w.push (← b.tangents t seeds.length zero w n))
    (Tape.seedRows t.width zero seeds).toArray

/-- The derivatives of the outputs in the directions that the seeds give. -/
def forward (b : Builder) (t : Tape K) (seeds : List (List (SparseMatrix K))) :
    Building (List (List (SparseMatrix K))) := do
  t.checkSeeds .input seeds
  let zero ← Node.newConst Scalar.zero
  let w ← b.forwardSweep t zero seeds
  return Tape.sensitivities t.outputs seeds.length fun d n =>
    (w.getD (t.position n) []).getD d zero

/-! ## Backward -/

/-- The adjoints of one node in all directions; none stands for zero. -/
abbrev Adjoints (K : Type) := List (Option (Node K))

/-- Add a contribution to an adjoint. -/
def accumulate (b : Builder) (adjoint : Option (Node K)) (contribution : Option (Node K)) :
    Build (Option (Node K)) :=
  match adjoint, contribution with
  | a, none => pure a
  | none, some v => pure (if v.isZero then none else some v)
  | some a, some v => if v.isZero then pure (some a) else return some (← b.binary .add a v)

/-- Add contributions to the adjoints at a position. -/
def accumulateAt (b : Builder) (w : Array (Adjoints K)) (i : Nat) (row : Adjoints K) :
    Build (Array (Adjoints K)) := do
  let sum ← ((w.getD i []).zip row).mapM fun (a, v) => b.accumulate a v
  return w.setIfInBounds i sum

/-- Pass the adjoints of a node on to its operands. -/
def passBack (b : Builder) (t : Tape K) (n : Node K) (i : Nat) (w : Array (Adjoints K)) :
    Build (Array (Adjoints K)) := do
  let row := w.getD i []
  if row.all (·.isNone) then
    return w
  match n with
  | .const _ _ | .symbol _ _ => return w
  | .unary _ u x =>
    let dx ← u.slope (b.algebra K) x n
    b.accumulateAt w (t.position x) (← row.mapM (·.mapM (b.binary .mul dx)))
  | .binary _ op x y =>
    let (dx, dy) ← op.slopes (b.algebra K) x y n
    let w ← b.accumulateAt w (t.position x) (← row.mapM (·.mapM (b.binary .mul dx)))
    b.accumulateAt w (t.position y) (← row.mapM (·.mapM (b.binary .mul dy)))

/-- The adjoints at all positions before any is passed on: those of the output nonzeros. -/
def backwardStart (b : Builder) (t : Tape K) (zero : Node K)
    (seeds : List (List (SparseMatrix K))) : Build (Array (Adjoints K)) :=
  let positions := t.results.flatten
  (positions.zip (Tape.seedRows positions.length zero seeds)).foldlM
    (fun w (i, row) => b.accumulateAt w i (row.map some))
    (Array.replicate t.nodes.length (List.replicate seeds.length none))

/-- The adjoints at all positions. -/
def backwardSweep (b : Builder) (t : Tape K) (zero : Node K)
    (seeds : List (List (SparseMatrix K))) : Build (Array (Adjoints K)) := do
  t.nodes.zipIdx.reverse.foldlM (fun w (n, i) => b.passBack t n i w)
    (← b.backwardStart t zero seeds)

/-- The derivatives, by the inputs, of the outputs weighted with the seeds of each direction. -/
def backward (b : Builder) (t : Tape K) (seeds : List (List (SparseMatrix K))) :
    Building (List (List (SparseMatrix K))) := do
  t.checkSeeds .output seeds
  let zero ← Node.newConst Scalar.zero
  let w ← b.backwardSweep t zero seeds
  return Tape.sensitivities t.inputs seeds.length fun d n =>
    ((w.getD (t.position n) []).getD d none).getD zero

/-! ## Jacobians -/

/-- The constant one at nonzero `k`, and zero elsewhere. -/
def unit (sp : SharedPattern) (k : Nat) : Build (SparseMatrix K) := do
  let zeros ← SparseMatrix.zeros sp
  return { zeros with nonzeros := zeros.nonzeros.set k (← Node.newConst (Scalar.literal .one)) }

/-- The derivatives of a matrix by a matrix of symbols: a row for each nonzero of the first, a
column for each nonzero of the second. The direction with fewer seeds is taken. -/
def jacobian [Numeral K] (b : Builder) (output input : SparseMatrix K) :
    Building (SparseMatrix K) := do
  let t ← Tape.freezeOpen "jacobian" [input] [output]
  let pattern ← t.jacobianPattern 0 0
  let sp ← SharedPattern.share pattern
  let zero ← Node.newConst Scalar.zero
  if input.nnz ≤ output.nnz then
    let seeds ← (List.range input.nnz).mapM fun c => return [← unit (K := K) input.sp c]
    let sens ← b.forward t seeds
    let entry := fun (e : Pattern.Entry) =>
      ((sens.getD e.cell.col.toNatClampNeg []).flatMap (·.nonzeros)).getD
        e.cell.row.toNatClampNeg zero
    return { sp, nonzeros := pattern.entries.map entry }
  else
    let seeds ← (List.range output.nnz).mapM fun r => return [← unit (K := K) output.sp r]
    let sens ← b.backward t seeds
    let entry := fun (e : Pattern.Entry) =>
      ((sens.getD e.cell.row.toNatClampNeg []).flatMap (·.nonzeros)).getD
        e.cell.col.toNatClampNeg zero
    return { sp, nonzeros := pattern.entries.map entry }

/-- The derivative of an expression by a symbol. -/
def gradient [Numeral K] (b : Builder) (y x : Node K) : Building (Node K) := do
  unless x.isSymbol do
    throw (.issue (.notDifferentiable x.text))
  let jac ← b.jacobian (SparseMatrix.scalar y) (SparseMatrix.scalar x)
  match jac.nonzeros with
  | n :: _ => return n
  | [] => Node.newConst (Scalar.zero : K)

end Builder

end Tangent
