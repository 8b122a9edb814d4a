import Tangent.Buffer
import Tangent.Pattern.Basic

/-!
# Building patterns

A pattern is built from its columns (`ofColumns`), which are checked, from a list of cells in any
order and with any repetitions (`ofCells`), with every place (`dense`) or with none (`empty`).
The last two check nothing but that there is room for what they store.
-/

namespace Tangent.Pattern

/-! ## Room -/

/-- The number of machine words that can be stored at once. -/
def capacity : Int64 := 35184372088832

/-- A list of this many machine words can be stored. -/
def fits (n : Int64) : Bool :=
  0 ≤ n && n ≤ capacity

/-! ## From columns -/

/-- The rows of one column are in range and strictly increasing. -/
def checkRows (nrow : Int64) (col : Nat) : Option Int64 → List Int64 → Result Unit
  | _, [] => pure ()
  | previous, r :: rs =>
    if r < 0 || nrow ≤ r then .inconsistent (.rowOutOfRange r col nrow)
    else if previous.any (r ≤ ·) then .inconsistent (.rowsNotIncreasing col)
    else checkRows nrow col (some r) rs

/-- The columns from `col` on, which start and end at the given offsets, are in order. The rows
of a column are read as it is checked, so a column that ends too late may be noticed only by the
lack of rows. -/
def checkColumns (nrow : Int64) (rows : List Int64) : Nat → List Int64 → Result Unit
  | col, start :: stop :: offsets => do
    if stop < start then
      .inconsistent (.offsetsDecrease col)
    let first := start.toNatClampNeg
    let count := stop.toNatClampNeg - first
    checkRows nrow col none ((rows.drop first).take count)
    if rows.length < first + count then
      .fault .outOfRange
    checkColumns nrow rows (col + 1) (stop :: offsets)
  | _, _ => pure ()

/-- The pattern with the given columns. -/
def ofColumns (nrow ncol : Int64) (offsets rows : List Int64) : Result Pattern := do
  if nrow < 0 || ncol < 0 then
    .inconsistent (.negativeSize nrow ncol)
  if Int64.ofNat offsets.length ≠ ncol + 1 then
    .inconsistent (.offsetCount offsets.length ncol (ncol + 1))
  let first := offsets.head?.getD 0
  if first ≠ 0 then
    .inconsistent (.firstOffset first)
  let last := offsets.getLast?.getD 0
  if last ≠ Int64.ofNat rows.length then
    .inconsistent (.lastOffset last rows.length)
  checkColumns nrow rows 0 offsets
  return { nrow, ncol, offsets, rows }

/-! ## With every place, and with none -/

/-- The pattern with every place. -/
def full (nrow ncol : Int64) : Pattern where
  nrow := nrow
  ncol := ncol
  offsets := (List.range (ncol + 1).toNatClampNeg).map fun c => Int64.ofNat c * nrow
  rows := (List.replicate ncol.toNatClampNeg
    ((List.range nrow.toNatClampNeg).map Int64.ofNat)).flatten

/-- Every place is a structural nonzero. -/
def dense (nrow ncol : Int64) : Result Pattern :=
  if fits (ncol + 1) && fits (nrow * ncol) then .ok (full nrow ncol) else .fault .outOfRange

/-- No place is a structural nonzero. -/
def empty (nrow ncol : Int64) : Result Pattern :=
  if fits (ncol + 1) then
    .ok { nrow, ncol, offsets := List.replicate (ncol + 1).toNatClampNeg 0, rows := [] }
  else
    .fault .outOfRange

/-- The pattern with one place, which is a structural nonzero. -/
def scalar : Pattern :=
  { nrow := 1, ncol := 1, offsets := [0, 1], rows := [0] }

/-! ## From cells -/

/-- Drop the elements that equal their neighbour to the right. -/
def dropRepeats : List Cell → List Cell
  | a :: b :: rest => if a = b then dropRepeats (b :: rest) else a :: dropRepeats (b :: rest)
  | cells => cells

/-- The cells in the order in which they are stored, each of them once. -/
def stored (cells : List Cell) : List Cell :=
  dropRepeats (cells.mergeSort Cell.le)

/-- The number of nonzeros of every column, one place further on. -/
def countColumns (ncol : Int64) (cols : List Int64) : Result (Array Int64) :=
  cols.foldlM (fun counts col => Buffer.countUp counts (col + 1))
    (Array.replicate (ncol + 1).toNatClampNeg 0)

/-- Column `c` ends as far behind its start as it has nonzeros. -/
def endColumn (offsets : Array Int64) (c : Nat) : Result (Array Int64) := do
  let start ← Buffer.read offsets (Int64.ofNat c)
  let count ← Buffer.read offsets (Int64.ofNat c + 1)
  Buffer.write offsets (Int64.ofNat c + 1) (count + start)

/-- Where each column starts and the last one ends, given the column of every nonzero. The nonzeros
are counted, and the numbers are added up from the left. -/
def offsetsOf (ncol : Int64) (cols : List Int64) : Result (List Int64) := do
  let counts ← countColumns ncol cols
  let offsets ← (List.range ncol.toNatClampNeg).foldlM endColumn counts
  return offsets.toList

/-- The pattern whose structural nonzeros are the given cells. -/
def ofCells (nrow ncol : Int64) (cells : List Cell) : Result Pattern := do
  if let some cell := cells.find? (fun cell => !cell.inRange nrow ncol) then
    .inconsistent (.cellOutOfRange cell.row cell.col nrow ncol)
  unless fits (ncol + 1) do
    .fault .outOfRange
  let cells := stored cells
  let offsets ← offsetsOf ncol (cells.map (·.col))
  return { nrow, ncol, offsets, rows := cells.map (·.row) }

end Tangent.Pattern
