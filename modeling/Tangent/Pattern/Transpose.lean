import Tangent.Pattern.Build
import Tangent.Pattern.Cells

/-!
# Transposition

The columns of the transposed pattern are the rows of the pattern. Their nonzeros are counted first,
which says where each of them starts; then the nonzeros of the pattern are put, in the order in
which they are stored, at the next free place of their new column. Beside the pattern stands, for
each nonzero of the result, the number of the nonzero that it comes from.
-/

namespace Tangent.Pattern

/-- A transposed pattern in the making. -/
structure Transposing where
  /-- The next free place of each column. -/
  next : Array Int64
  /-- The rows of the nonzeros that were put at their places. -/
  rows : Array Int64
  /-- The numbers that these nonzeros had. -/
  mapping : Array Nat

/-- Nothing is at its place yet, and the first free place of a column is its start. -/
def Transposing.start (p : Pattern) (offsets : List Int64) : Transposing where
  next := (offsets.take p.nrow.toNatClampNeg).toArray
  rows := Array.replicate p.nnz 0
  mapping := Array.replicate p.nnz 0

/-- Put a nonzero at the next free place of its row, which is a column now. -/
def Transposing.put (s : Transposing) (e : Entry) : Result Transposing := do
  let place ← Buffer.read s.next e.cell.row
  return {
    next := ← Buffer.write s.next e.cell.row (place + 1)
    rows := ← Buffer.write s.rows place e.cell.col
    mapping := ← Buffer.write s.mapping place e.index }

/-- The transposed pattern, and the number of each of its nonzeros in the given one. -/
def transpose (p : Pattern) : Result (Pattern × List Nat) := do
  unless 0 ≤ p.nrow && fits (p.nrow + 1) do
    .fault .outOfRange
  let offsets ← offsetsOf p.nrow p.rows
  let s ← (← p.walk).foldlM Transposing.put (.start p offsets)
  return ({ nrow := p.ncol, ncol := p.nrow, offsets, rows := s.rows.toList }, s.mapping.toList)

end Tangent.Pattern
