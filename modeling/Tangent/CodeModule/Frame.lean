import Tangent.CodeModule.Options
import Tangent.Routine.Instr

/-!
# The frame of a gateway

A gateway keeps everything that a routine works on in one vector: the input nonzeros, the output
nonzeros, a dense temporary as large as the largest input, and the work vector of the routine, in
this order. Sizes are machine integers.
-/

namespace Tangent.CodeModule

/-- The work vector that a routine asks for: with the scalars, if they are kept there. -/
def workSize (o : Options) (f : Routine Float) : Int64 :=
  if o.scalarsInWork then f.work + f.scalars else f.work

structure Frame where
  /-- Where each input starts. -/
  inputs : List Int64
  /-- Where each output starts. -/
  outputs : List Int64
  temporary : Int64
  work : Int64
  size : Int64
  iwork : Int64

namespace Frame

/-- Where each of some arguments starts, from `offset` on, and where the last one ends. -/
def starts (offset : Int64) : List (Option SharedPattern) → List Int64 × Int64
  | [] => ([], offset)
  | sp :: rest =>
    let (offsets, stop) := starts (offset + Int64.ofNat (Routine.nonzeros [sp])) rest
    (offset :: offsets, stop)

/-- The greatest number of places of an input. -/
def largest (patterns : List (Option SharedPattern)) : Int64 :=
  patterns.foldl (fun n sp => max n (sp.elim 0 (·.pattern.numel))) 0

def ofRoutine (o : Options) (f : Routine Float) : Frame :=
  let (inputs, stop) := starts 0 f.inputs
  let (outputs, stop) := starts stop f.outputs
  let work := stop + largest f.inputs
  { inputs, outputs, temporary := stop, work
    size := max 1 (work + workSize o f)
    iwork := max 1 f.iwork }

end Frame

end Tangent.CodeModule
