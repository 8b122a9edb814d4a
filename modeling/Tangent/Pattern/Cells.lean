import Tangent.Error.Basic
import Tangent.Pattern.Basic

/-!
# The nonzeros of a pattern

`Pattern.entries` lists the structural nonzeros in the order in which they are stored, each with
its number and its cell, and `Pattern.find` looks one up by its place, halving the rows of its
column (`Pattern.bisect`). `Pattern.picture` draws the pattern. A pattern whose size has wrapped
around has columns that lie outside of its rows; reading one of them is a fault.
-/

namespace Tangent.Pattern

/-- A structural nonzero: its number and its place. -/
structure Entry where
  index : Nat
  cell : Cell
deriving DecidableEq

/-- The nonzeros of column `c`. -/
def entriesOf (p : Pattern) (c : Nat) : List Entry :=
  ((p.column c).zipIdx (p.offset c)).map fun (row, index) =>
    { index, cell := { row, col := Int64.ofNat c } }

/-- The nonzeros, in the order in which they are stored. -/
def entries (p : Pattern) : List Entry :=
  (List.range p.columns).flatMap p.entriesOf

/-- Column `c` is a stretch of the stored rows. -/
def holdsColumn (p : Pattern) (c : Nat) : Bool :=
  match p.offsets[c]?, p.offsets[c + 1]? with
  | some start, some stop => 0 ≤ start && start ≤ stop && stop ≤ Int64.ofNat p.nnz
  | _, _ => false

/-- Every column with a nonzero is a stretch of the stored rows. -/
def isReadable (p : Pattern) : Bool :=
  (List.range p.columns).all fun c =>
    (p.offsets[c + 1]?).getD 0 ≤ (p.offsets[c]?).getD 0 || p.holdsColumn c

/-- The nonzeros one after the other, if all can be read. -/
def walk (p : Pattern) : Result (List Entry) :=
  if p.isReadable then .ok p.entries else .fault .outOfRange

/-- Where `r` would stand among increasing rows, if that is from `lo` up to `hi`. The stretch is
halved until nothing is left of it. -/
@[semireducible]
def bisect (rows : List Int64) (r : Int64) (lo hi : Nat) : Result Nat :=
  if lo < hi then
    let mid := (lo + hi) / 2
    match rows[mid]? with
    | none => .fault .outOfRange
    | some row => if row < r then bisect rows r (mid + 1) hi else bisect rows r lo mid
  else
    .ok lo
termination_by hi - lo

/-- Where a row would stand in the column `c`, and whether it stands there. Outside of the
pattern the place is the first one. -/
def find (p : Pattern) (r c : Int64) : Result (Nat × Bool) :=
  if c < 0 || p.ncol ≤ c then
    .ok (0, false)
  else if p.holdsColumn c.toNatClampNeg then do
    let column := p.column c.toNatClampNeg
    let before ← bisect column r 0 column.length
    return (p.offset c.toNatClampNeg + before, column[before]? == some r)
  else
    .fault .outOfRange

/-- The number of the nonzero at a place, if there is one. -/
def find? (p : Pattern) (r c : Int64) : Option Nat :=
  match p.find r c with
  | .ok (k, true) => some k
  | _ => none

/-- One line for each row, with a star for each structural nonzero and a dot elsewhere. -/
def picture (p : Pattern) : String :=
  let columns := (List.range p.columns).map p.column
  String.join ((List.range p.nrow.toNatClampNeg).map fun r =>
    String.ofList (columns.map fun rows =>
      if rows.contains (Int64.ofNat r) then '*' else '.') ++ "\n")

end Tangent.Pattern
