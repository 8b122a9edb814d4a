/-!
# Sparsity patterns

The structure of a sparse matrix, column by column: `rows` lists the row of every structural
nonzero, one column after the other, and `offsets` says where each column starts and the last
one ends. Sizes are machine integers; in a pattern that is well formed they are not negative, but
patterns with other sizes can be written down and asked about.

A `SharedPattern` is a pattern that is told apart from its copies by a key.
-/

namespace Tangent

/-- The place of a structural nonzero. -/
structure Cell where
  row : Int64
  col : Int64
deriving DecidableEq

/-- Cells are ordered by column, then by row. -/
def Cell.le (a b : Cell) : Bool :=
  a.col < b.col || (a.col == b.col && a.row ≤ b.row)

/-- The cell is a place of a matrix of the given size. -/
def Cell.inRange (nrow ncol : Int64) (cell : Cell) : Bool :=
  0 ≤ cell.row && cell.row < nrow && 0 ≤ cell.col && cell.col < ncol

structure Pattern where
  nrow : Int64
  ncol : Int64
  /-- Where each column starts in `rows`, and where the last one ends. -/
  offsets : List Int64
  /-- The row of each structural nonzero. -/
  rows : List Int64
deriving DecidableEq

namespace Pattern

/-- The number of places, structurally zero or not. -/
def numel (p : Pattern) : Int64 :=
  p.nrow * p.ncol

/-- The number of structural nonzeros. -/
def nnz (p : Pattern) : Nat :=
  p.rows.length

/-- Every place is a structural nonzero. -/
def isDense (p : Pattern) : Bool :=
  Int64.ofNat p.nnz == p.numel

/-- The pattern has one row and one column. -/
def isScalar (p : Pattern) : Bool :=
  p.nrow == 1 && p.ncol == 1

/-- The pattern has one row and one column, and its only place is a structural nonzero. -/
def isDenseScalar (p : Pattern) : Bool :=
  p.isScalar && p.nnz == 1

def isVector (p : Pattern) : Bool :=
  p.nrow == 1 || p.ncol == 1

/-- The two patterns have as many rows and as many columns. -/
def sameSize (p q : Pattern) : Bool :=
  p.nrow == q.nrow && p.ncol == q.ncol

/-- The size, and the number of nonzeros unless every place is one. -/
def describe (p : Pattern) : String :=
  let size := toString p.nrow ++ "x" ++ toString p.ncol
  if p.isDense then size else size ++ "," ++ toString p.nnz ++ "nz"

/-- The number of columns that can be walked through. -/
def columns (p : Pattern) : Nat :=
  p.ncol.toNatClampNeg

/-- Where column `c` starts, or where the last one ends. -/
def offset (p : Pattern) (c : Nat) : Nat :=
  ((p.offsets[c]?).getD 0).toNatClampNeg

/-- The rows of the nonzeros of column `c`. -/
def column (p : Pattern) (c : Nat) : List Int64 :=
  (p.rows.drop (p.offset c)).take (p.offset (c + 1) - p.offset c)

end Pattern

/-- A pattern with a key of its own. Two shared patterns with one key are one pattern. -/
structure SharedPattern where
  key : Nat
  pattern : Pattern
deriving DecidableEq

end Tangent
