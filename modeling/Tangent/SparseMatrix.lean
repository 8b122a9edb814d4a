import Tangent.Node.Apply
import Tangent.Node.Text
import Tangent.Pattern.Build
import Tangent.Pattern.Cells

/-!
# Sparse matrices of expressions

A sparse matrix has a pattern and one node for each structural nonzero. Operations act on the
nonzeros alone as long as they take zero to zero; otherwise the matrix is first made dense
(`SparseMatrix.densify`), with the constant zero at every structural zero. A dense one by one
matrix goes with a matrix of any size.
-/

namespace Tangent

/-- Give a pattern a key of its own. -/
def SharedPattern.share (pattern : Pattern) : Build SharedPattern :=
  return { key := ← Build.fresh, pattern }

/-- The pattern of a scalar, which is one pattern everywhere. Its key is never drawn. -/
def SharedPattern.scalar : SharedPattern :=
  { key := 0, pattern := Pattern.scalar }

/-- The first number that a supply hands out. -/
def Build.first : Nat := 1

structure SparseMatrix (K : Type) where
  sp : SharedPattern
  /-- One node for each structural nonzero, in the order of the pattern. -/
  nonzeros : List (Node K)

namespace SparseMatrix

variable {K : Type}

def pattern (m : SparseMatrix K) : Pattern :=
  m.sp.pattern

def nnz (m : SparseMatrix K) : Nat :=
  m.nonzeros.length

/-! ## Making matrices -/

def ofNodes (sp : SharedPattern) (nodes : List (Node K)) : Result (SparseMatrix K) :=
  if sp.pattern.nnz = nodes.length then
    .ok { sp, nonzeros := nodes }
  else
    .inconsistent (.nodeCount sp.pattern.describe sp.pattern.nnz nodes.length)

def scalar (n : Node K) : SparseMatrix K :=
  { sp := SharedPattern.scalar, nonzeros := [n] }

/-- A dense column. -/
def column (nodes : List (Node K)) : Building (SparseMatrix K) := do
  let pattern ← Pattern.dense (Int64.ofNat nodes.length) 1
  return { sp := ← SharedPattern.share pattern, nonzeros := nodes }

/-- New symbols, numbered after a common name; a scalar has the bare name. -/
def symbols (name : String) (sp : SharedPattern) : Build (SparseMatrix K) := do
  if sp.pattern.isDenseScalar then
    return { sp, nonzeros := [← Node.newSymbol name] }
  let nonzeros ← (List.range sp.pattern.nnz).mapM fun k =>
    Node.newSymbol (name ++ "_" ++ toString k)
  return { sp, nonzeros }

def constants (sp : SharedPattern) (values : List K) : Building (SparseMatrix K) := do
  if sp.pattern.nnz ≠ values.length then
    throw (.inconsistent
      (.valueCount sp.pattern.describe sp.pattern.nnz values.length))
  return { sp, nonzeros := ← values.mapM fun v => (Node.newConst v : Build _) }

/-- The constant zero, one and the same node, at every structural nonzero. -/
def zeros [Scalar K] (sp : SharedPattern) : Build (SparseMatrix K) := do
  let zero ← Node.newConst Scalar.zero
  return { sp, nonzeros := List.replicate sp.pattern.nnz zero }

/-! ## Looking up -/

/-- The node at a place, or none at a structural zero. -/
def get? (m : SparseMatrix K) (r c : Int64) : Option (Node K) :=
  (m.pattern.find? r c).bind (m.nonzeros[·]?)

/-- The node at a place, if its column can be read. -/
def get (m : SparseMatrix K) (r c : Int64) : Result (Option (Node K)) := do
  match ← m.pattern.find r c with
  | (_, false) => return none
  | (k, true) =>
    match m.nonzeros[k]? with
    | some n => return some n
    | none => .fault .outOfRange

def text [Numeral K] (m : SparseMatrix K) : String :=
  let texts := m.nonzeros.map Node.text
  if m.pattern.isDenseScalar then String.join texts
  else m.pattern.describe ++ "[" ++ String.intercalate ", " texts ++ "]"

/-! ## Elementwise operations -/

/-- Put the node of a nonzero at its place, where the places are numbered column by column. -/
def placeNode (m : SparseMatrix K) (nodes : Array (Node K)) (e : Pattern.Entry) :
    Result (Array (Node K)) :=
  match m.nonzeros[e.index]? with
  | some n => Buffer.write nodes (e.cell.col * m.pattern.nrow + e.cell.row) n
  | none => .fault .outOfRange

/-- Put every node at its place. -/
def placeNodes (m : SparseMatrix K) (nodes : Array (Node K)) : Result (Array (Node K)) := do
  (← m.pattern.walk).foldlM m.placeNode nodes

variable [Scalar K]

/-- The same matrix with every place a structural nonzero. -/
def densify (m : SparseMatrix K) : Building (SparseMatrix K) := do
  if m.pattern.isDense then
    return m
  let pattern ← Pattern.dense m.pattern.nrow m.pattern.ncol
  let zero ← Node.newConst Scalar.zero
  let nodes ← m.placeNodes (Array.replicate pattern.nnz zero)
  return { sp := ← SharedPattern.share pattern, nonzeros := nodes.toList }

/-- The same pattern with other nodes. -/
def mapNodes (m : SparseMatrix K) (f : Node K → Build (Node K)) : Build (SparseMatrix K) :=
  return { m with nonzeros := ← m.nonzeros.mapM f }

/-- Apply a unary operation everywhere. -/
def map (b : Builder) (c : Opcode) (m : SparseMatrix K) : Building (SparseMatrix K) := do
  match c.op? with
  | none => throw (.fault .outOfRange)
  | some (.unary u) =>
    let m ← if Scalar.keepsZero₁ K u then pure m else m.densify
    m.mapNodes (b.unary u)
  | some op => throw (.inconsistent (.notUnary op.name))

/-- Apply a binary operation to matrices of one size. -/
def zip (b : Builder) (op : Binary) (x y : SparseMatrix K) : Building (SparseMatrix K) := do
  unless x.pattern.sameSize y.pattern do
    throw (.inconsistent (.shapes op.name x.pattern.describe y.pattern.describe))
  let sparse := x.pattern = y.pattern && Scalar.keepsZero₂ K op
  let x ← if sparse then pure x else x.densify
  let y ← if sparse then pure y else y.densify
  let nonzeros ← (x.nonzeros.zip y.nonzeros).mapM fun (m, n) => (b.binary op m n : Build _)
  return { sp := x.sp, nonzeros }

/-- Apply an operation with a scalar to every place of a matrix. -/
def broadcast (m : SparseMatrix K) (f : Node K → Build (Node K)) :
    Building (SparseMatrix K) := do
  let zero ← Node.newConst Scalar.zero
  let m ← if (← f zero).isZero then pure m else m.densify
  m.mapNodes f

/-- Apply a binary operation place by place. -/
def elementwise (b : Builder) (c : Opcode) (x y : SparseMatrix K) :
    Building (SparseMatrix K) := do
  match c.op? with
  | none => throw (.fault .outOfRange)
  | some (.binary op) =>
    match x.pattern.isDenseScalar, y.pattern.isDenseScalar, x.nonzeros, y.nonzeros with
    | true, false, [s], _ => y.broadcast (b.binary op s ·)
    | false, true, _, [s] => x.broadcast (b.binary op · s)
    | _, _, _, _ => zip b op x y
  | some op => throw (.inconsistent (.notBinary op.name))

/-- The sum of the nonzeros, added from the left to zero. -/
def sum (b : Builder) (m : SparseMatrix K) : Build (Node K) := do
  let zero ← Node.newConst Scalar.zero
  m.nonzeros.foldlM (b.binary .add) zero

/-- The sum of the products of the elements of two matrices. -/
def dot (b : Builder) (x y : SparseMatrix K) : Building (Node K) := do
  (← elementwise b (Opcode.ofOp (.binary .mul)) x y).sum b

end SparseMatrix

end Tangent
