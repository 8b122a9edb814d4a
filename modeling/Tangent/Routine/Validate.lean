import Tangent.Identifier
import Tangent.Pattern.Transpose
import Tangent.Routine.Instr

/-!
# Sound routines

Every instruction of a sound routine refers to slots, nonzeros and ranges that are there, and the
patterns of its operands go together. `Instr.issues` lists what is wrong with one instruction.
The end of a range is computed on machine integers, and may wrap around.
-/

namespace Tangent

namespace Routine

variable {K : Type} (f : Routine K)

/-- Every slot has a number below the number of slots. -/
def slotIssues (what : String) (slot : Int64) : List Issue :=
  if slot < 0 || f.scalars ≤ slot then [.slotRange what slot f.scalars] else []

/-- A range of `n` elements lies within the work vector. -/
def workIssues (what : String) (offset n : Int64) : List Issue :=
  if n < 0 then [.negativeRange what n]
  else if offset < 0 || f.work < offset + n then
    [.workRange what offset (offset + n) f.work]
  else []

/-- A range of `n` elements lies within the integer work vector. -/
def iworkIssues (what : String) (offset n : Int64) : List Issue :=
  if offset < 0 || f.iwork < offset + n then
    [.integerWorkRange what offset (offset + n) f.iwork]
  else []

/-- An argument and its nonzero are there; then the slot is looked at. -/
def nonzeroIssues (side : Side) (patterns : List (Option SharedPattern)) (arg nonzero : Int64)
    (what : String) (slot : Int64) : List Issue :=
  if arg < 0 || Int64.ofNat patterns.length ≤ arg then
    [.argumentRange side arg patterns.length]
  else
    let nnz := nonzeros [(patterns[arg.toNatClampNeg]?).join]
    if nonzero < 0 || Int64.ofNat nnz ≤ nonzero then [.nonzeroRange side arg nonzero nnz]
    else f.slotIssues what slot

end Routine

/-- The patterns that are missing, by the names of their operands. -/
def missingPatterns (operands : List (String × Option SharedPattern)) : List Issue :=
  operands.filterMap fun (what, sp) => if sp.isNone then some (.noPattern what) else none

namespace Instr

variable {K : Type}

/-- What is wrong with an instruction of a routine. -/
def issues (f : Routine K) : Instr K → Result (List Issue)
  | input slot arg nonzero => return f.nonzeroIssues .input f.inputs arg nonzero "result" slot
  | output res nonzero slot => return f.nonzeroIssues .output f.outputs res nonzero "operand" slot
  | const slot _ => return f.slotIssues "result" slot
  | apply c slot x y =>
    match c.op? with
    | some (.unary _) => return f.slotIssues "result" slot ++ f.slotIssues "operand" x
    | some (.binary _) =>
      return f.slotIssues "result" slot ++ f.slotIssues "operand" x ++ f.slotIssues "operand" y
    | _ => return [.cannotApply c.text]
  | gather slot offset => return f.slotIssues "result" slot ++ f.workIssues "source" offset 1
  | scatter offset slot =>
    return f.slotIssues "operand" slot ++ f.workIssues "destination" offset 1
  | constArray offset values =>
    return f.workIssues "destination" offset (Int64.ofNat values.length)
  | constElement slot values index =>
    if index < 0 || Int64.ofNat values.length ≤ index then
      return [.elementRange index values.length]
    else
      return f.slotIssues "result" slot
  | fill offset n _ => return f.workIssues "destination" offset n
  | copy source n target =>
    return f.workIssues "source" source n ++ f.workIssues "destination" target n
  | swap n x y => return f.workIssues "x" x n ++ f.workIssues "y" y n
  | scale n alpha x => return f.slotIssues "alpha" alpha ++ f.workIssues "x" x n
  | axpy n alpha x y =>
    return f.slotIssues "alpha" alpha ++ f.workIssues "x" x n ++ f.workIssues "y" y n
  | dot slot n x y =>
    return f.slotIssues "result" slot ++ f.workIssues "x" x n ++ f.workIssues "y" y n
  | reduce _ slot n x => return f.slotIssues "result" slot ++ f.workIssues "x" x n
  | bilinear slot a sp x y =>
    match sp with
    | none => return missingPatterns [("A", sp)]
    | some p =>
      return f.slotIssues "result" slot ++ f.workIssues "A" a (Int64.ofNat p.pattern.nnz)
        ++ f.workIssues "x" x p.pattern.nrow ++ f.workIssues "y" y p.pattern.ncol
  | rank1 a sp alpha x y =>
    match sp with
    | none => return missingPatterns [("A", sp)]
    | some p =>
      return f.slotIssues "alpha" alpha ++ f.workIssues "A" a (Int64.ofNat p.pattern.nnz)
        ++ f.workIssues "x" x p.pattern.nrow ++ f.workIssues "y" y p.pattern.ncol
  | project source spSource target spTarget temporary =>
    match spSource, spTarget with
    | some p, some q =>
      if p.pattern.sameSize q.pattern then
        return f.workIssues "source" source (Int64.ofNat p.pattern.nnz)
          ++ f.workIssues "destination" target (Int64.ofNat q.pattern.nnz)
          ++ f.workIssues "temporary" temporary p.pattern.nrow
      else
        return [.cannotProject p.pattern.describe q.pattern.describe]
    | _, _ => return missingPatterns [("source", spSource), ("destination", spTarget)]
  | transpose source spSource target spTarget temporary =>
    match spSource, spTarget with
    | some p, some q => do
      let (transposed, _) ← p.pattern.transpose
      if transposed = q.pattern then
        return f.workIssues "source" source (Int64.ofNat p.pattern.nnz)
          ++ f.workIssues "destination" target (Int64.ofNat q.pattern.nnz)
          ++ f.iworkIssues "temporary" temporary q.pattern.ncol
      else
        return [.notTransposed q.pattern.describe p.pattern.describe]
    | _, _ => return missingPatterns [("source", spSource), ("destination", spTarget)]
  | multiply x spX y spY z spZ temporary transposed =>
    match spX, spY, spZ with
    | some p, some q, some r =>
      let rows := if transposed then p.pattern.ncol else p.pattern.nrow
      let cols := if transposed then p.pattern.nrow else p.pattern.ncol
      if cols = q.pattern.nrow && rows = r.pattern.nrow && q.pattern.ncol = r.pattern.ncol then
        return f.workIssues "x" x (Int64.ofNat p.pattern.nnz)
          ++ f.workIssues "y" y (Int64.ofNat q.pattern.nnz)
          ++ f.workIssues "z" z (Int64.ofNat r.pattern.nnz)
          ++ f.workIssues "temporary" temporary
            (if transposed then q.pattern.nrow else r.pattern.nrow)
      else
        return [.cannotMultiply p.pattern.describe q.pattern.describe r.pattern.describe transposed]
    | _, _, _ => return missingPatterns [("x", spX), ("y", spY), ("z", spZ)]
  | external slot name args =>
    if isIdentifier name then
      return f.slotIssues "result" slot ++ args.flatMap (f.slotIssues "argument")
    else
      return [.badIdentifier "external function name" name]

end Instr

namespace Routine

variable {K : Type}

/-- The arguments of one side that have no pattern. -/
def missingArguments (side : Side) (patterns : List (Option SharedPattern)) : List Issue :=
  missingPatterns (patterns.zipIdx.map fun (sp, i) => (side.name ++ " " ++ toString i, sp))

/-- What is wrong with one instruction, as one error. -/
def instrError (f : Routine K) (instr : Instr K) (i : Nat) : Result (Option Error) := do
  let issues ← instr.issues f
  return (Error.combine? (issues.map .issue)).map
    (.within ("instruction " ++ toString i ++ ": "))

/-- The routine is sound. Everything that is wrong with its arguments, or else everything that is
wrong with its instructions, is reported together. -/
def validate (f : Routine K) : Result Unit := do
  unless isIdentifier f.name do
    .issue (.badIdentifier "function name" f.name)
  let context := "function " ++ f.name ++ ": "
  let missing := missingArguments .input f.inputs ++ missingArguments .output f.outputs
  if let some e := Error.combine? (missing.map .issue) then
    .error (.within context e)
  let errors ← f.body.zipIdx.filterMapM fun (instr, i) => f.instrError instr i
  if let some e := Error.combine? errors then
    .error (.within context e)

end Routine

end Tangent
