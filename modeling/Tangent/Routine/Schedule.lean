import Tangent.Routine.Validate
import Tangent.Tape.Basic

/-!
# Scheduling

A tape becomes a routine: its nodes are computed in the order of the tape, each into a scalar
slot. The slot of a node is free again once the node is not needed any more, and the slot that
became free last is taken first. Nodes that nothing needs are left out, and the outputs are
written at the end.
-/

namespace Tangent

/-! ## Slots -/

/-- Slots that are free again, the last one first, and the number of slots in all. -/
structure Slots where
  free : List Nat := []
  count : Nat := 0

namespace Slots

/-- Take a slot. -/
def take (s : Slots) : Nat × Slots :=
  match s.free with
  | i :: free => (i, { s with free })
  | [] => (s.count, { s with count := s.count + 1 })

/-- Give a slot back. -/
def release (s : Slots) (i : Nat) : Slots :=
  { s with free := i :: s.free }

end Slots

variable {K : Type}

/-! ## Last uses -/

/-- Note that some positions are needed at position `i`, in place of what was noted before. -/
def noteUses (i : Nat) (last : Array (Option Nat)) (needed : List Nat) : Array (Option Nat) :=
  needed.foldl (fun last j => last.setIfInBounds j (some i)) last

/-- The last position at which each node is needed: the end of the tape for an output, none for a
node that nothing needs. -/
def Tape.lastUses (t : Tape K) : Array (Option Nat) :=
  let unused := Array.replicate t.nodes.length none
  let last := t.steps.zipIdx.foldl (fun last (s, i) => noteUses i last s.operands) unused
  noteUses t.nodes.length last t.results.flatten

/-! ## The routine -/

/-- A routine in the making: the slots, the slot of each position so far, and the instructions. -/
structure Scheduling (K : Type) where
  slots : Slots := {}
  slot : Array Nat := #[]
  body : Array (Instr K) := #[]

namespace Scheduling

/-- The slot of a position. -/
def slotOf (s : Scheduling K) (i : Nat) : Int64 :=
  Int64.ofNat (s.slot.getD i 0)

/-- Compute the next position into a slot, after the slots of the given positions are free. -/
def emit (s : Scheduling K) (done : List Nat) (instr : Int64 → Instr K) : Scheduling K :=
  let slots := done.foldl (fun slots j => slots.release (s.slot.getD j 0)) s.slots
  let (i, slots) := slots.take
  { slots, slot := s.slot.push i, body := s.body.push (instr (Int64.ofNat i)) }

/-- Leave the next position out. -/
def skip (s : Scheduling K) : Scheduling K :=
  { s with slot := s.slot.push 0 }

/-- The instruction for position `i`. -/
def advance (t : Tape K) (lastUse : Array (Option Nat)) (s : Scheduling K) :
    Step K × Nat → Result (Scheduling K)
  | (step, i) =>
    let ends := fun j => lastUse.getD j none == some i
    if (lastUse.getD i none).isNone then .ok s.skip
    else
      match step with
      | .symbol name =>
        match (Tape.numbered t.inputs)[i]? with
        | some (arg, nonzero, _) =>
          .ok (s.emit [] (.input · (Int64.ofNat arg) (Int64.ofNat nonzero)))
        | none => .issue (.notInput t.name name)
      | .const v => .ok (s.emit [] (.const · v))
      | .unary u x =>
        .ok (s.emit ([x].filter ends) (.apply (Opcode.ofOp (.unary u)) · (s.slotOf x) 0))
      | .binary b x y =>
        -- An operand that is used twice is given back once.
        .ok (s.emit ((if x = y then [x] else [x, y]).filter ends)
          (.apply (Opcode.ofOp (.binary b)) · (s.slotOf x) (s.slotOf y)))

end Scheduling

namespace Tape

/-- The instructions that write the outputs. -/
def outputInstrs (t : Tape K) (s : Scheduling K) : List (Instr K) :=
  t.results.zipIdx.flatMap fun (positions, i) =>
    positions.zipIdx.map fun (j, k) =>
      .output (Int64.ofNat i) (Int64.ofNat k) (s.slotOf j)

/-- The routine that computes the outputs of a tape. -/
def schedule (t : Tape K) : Result (Routine K) := do
  let s ← t.steps.zipIdx.foldlM (Scheduling.advance t t.lastUses) {}
  let routine : Routine K := {
    name := t.name
    inputs := t.inputs.map (some ·.sp)
    outputs := t.outputs.map (some ·.sp)
    scalars := Int64.ofNat s.slots.count
    work := 0
    iwork := 0
    body := s.body.toList ++ t.outputInstrs s }
  routine.validate
  return routine

end Tape

end Tangent
