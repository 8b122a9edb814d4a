import Tangent.Catalog.Mask
import Tangent.Pattern.Build
import Tangent.Tape.Basic

/-!
# Dependencies

Masks of seeds are passed along a tape, from the inputs forward to the outputs or from the outputs
back to the inputs. The pattern of a Jacobian follows from the forward direction, with one seed
for each input nonzero and as many of them at a time as a mask holds.
-/

namespace Tangent

variable {K : Type}

namespace Step

/-- The mask at a position, from the masks before it. -/
def mask (w : Array Mask) : Step K → Mask
  | symbol _ | const _ => 0
  | unary u x => Op.joinMasks (.unary u) (w.getD x 0) 0
  | binary b x y => Op.joinMasks (.binary b) (w.getD x 0) (w.getD y 0)

/-- Append the mask of each step. -/
def maskAll (steps : List (Step K)) (w : Array Mask) : Array Mask :=
  steps.foldl (fun w s => w.push (s.mask w)) w

/-- Move the mask at position `i`, unless it is empty, to the operands of the step there. -/
def spread (w : Array Mask) (i : Nat) (s : Step K) : Array Mask :=
  if w.getD i 0 = 0 then w
  else match s with
    | symbol _ | const _ => w
    | unary u x =>
      let (mx, _) := Op.spreadMask (.unary u) (w.getD i 0) (0, 0)
      (w.modify x (· ||| mx)).setIfInBounds i 0
    | binary b x y =>
      let (mx, my) := Op.spreadMask (.binary b) (w.getD i 0) (0, 0)
      ((w.modify x (· ||| mx)).modify y (· ||| my)).setIfInBounds i 0

/-- Move the masks back through all steps, the last one first. -/
def spreadAll (steps : List (Step K)) (w : Array Mask) : Array Mask :=
  steps.zipIdx.foldr (fun (s, i) w => s.spread w i) w

end Step

namespace Tape

/-- The mask of every output nonzero: it depends on whatever an input nonzero that it needs
depends on. -/
def masksForward (t : Tape K) (masks : List (List Mask)) : Result (List (List Mask)) := do
  t.checkShape .input masks
  let w := Step.maskAll (t.steps.drop t.width) masks.flatten.toArray
  return t.results.map fun positions => positions.map (w.getD · 0)

/-- The mask of every input nonzero: whatever depends on an output nonzero that needs it. -/
def masksBackward (t : Tape K) (masks : List (List Mask)) : Result (List (List Mask)) := do
  t.checkShape .output masks
  let seeds := t.results.flatten.zip masks.flatten
  let start := seeds.foldl (fun w (i, m) => w.modify i (· ||| m))
    (Array.replicate t.nodes.length 0)
  let w := Step.spreadAll t.steps start
  return t.inputs.map fun m => m.nonzeros.map fun n => w.getD (t.position n) 0

/-! ## The pattern of a Jacobian -/

/-- Clear the seeds, and set one for each nonzero from `offset` on, as far as one mask goes. -/
def setSeeds (offset : Nat) (seeds : List Mask) : List Mask :=
  (List.range' offset (min seeds.length (offset + Mask.width) - offset)).foldl
    (fun seeds k => seeds.set k (1 <<< UInt64.ofNat (k - offset))) (seeds.map fun _ => 0)

/-- The numbers of the seeds of a mask, from `bit` on: the mask is shifted until it is empty. -/
@[semireducible]
def seedsFrom (bit : Nat) (mask : Mask) : List Nat :=
  if mask = 0 then []
  else if mask &&& 1 != 0 then bit :: seedsFrom (bit + 1) (mask >>> 1)
  else seedsFrom (bit + 1) (mask >>> 1)
termination_by mask.toNat
decreasing_by all_goals exact Mask.toNat_shiftRight_lt ‹_›

/-- The cells that the masks of the output nonzeros stand for. -/
def cellsOf (offset : Nat) (masks : List Mask) : List Cell :=
  masks.zipIdx.flatMap fun (mask, r) => (seedsFrom 0 mask).map fun bit =>
    { row := Int64.ofNat r, col := Int64.ofNat (offset + bit) }

/-- The number of masks that hold one seed for each of `count` nonzeros. -/
def chunks (count : Nat) : Nat :=
  (count + Mask.width - 1) / Mask.width

/-- Add the cells of one chunk of the nonzeros of input `i`. The seeds of the chunk before are
cleared, those of the other inputs stay empty. -/
def addChunk (t : Tape K) (i j : Nat) :
    List (List Mask) × List Cell → Nat → Result (List (List Mask) × List Cell)
  | (seeds, cells), chunk => do
    let offset := chunk * Mask.width
    let seeds := seeds.modify i (setSeeds offset)
    let masks ← t.masksForward seeds
    return (seeds, cells ++ cellsOf offset (masks.getD j []))

/-- The pattern of the derivatives of an output by an input: a row for each output nonzero, and a
column for each input nonzero. -/
def jacobianPattern (t : Tape K) (input output : Int64) : Result Pattern := do
  unless 0 ≤ input && input < Int64.ofNat t.inputs.length do
    .issue (.sideRange t.name .input input t.inputs.length)
  unless 0 ≤ output && output < Int64.ofNat t.outputs.length do
    .issue (.sideRange t.name .output output t.outputs.length)
  let i := input.toNatClampNeg
  let j := output.toNatClampNeg
  let count := t.inputs.map (·.nnz) |>.getD i 0
  let seeds := t.inputs.map fun m => List.replicate m.nnz 0
  let (_, cells) ← (List.range (chunks count)).foldlM (t.addChunk i j) (seeds, [])
  Pattern.ofCells (Int64.ofNat (t.outputs.map (·.nnz) |>.getD j 0)) (Int64.ofNat count) cells

end Tape

end Tangent
