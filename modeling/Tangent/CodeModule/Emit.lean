import Tangent.CodeModule.Basic
import Tangent.Routine.Validate

/-!
# Adding routines to a module

Every instruction becomes a statement, and registers what the statement refers to. A routine that
cannot be added leaves behind what its instructions registered until then.
-/

namespace Tangent

namespace CodeModule

/-- Register a support routine. -/
def needSupport (s : Support) : Emit Unit :=
  modify (addSupport s)

/-- The table of a pattern as an argument. -/
def needPattern (sp : Option SharedPattern) : Emit Arg :=
  match sp with
  | some sp => return .pattern (← modifyGet (addPattern sp))
  | none => throw (.fault .outOfRange)

/-- Call a support routine with work vectors, counts and slots only. -/
def callSupport (slot : Option Int64) (s : Support) (args : List Arg) : Emit Stmt := do
  needSupport s
  return .call slot s args

/-- The routine that reduces a vector. -/
def supportOf : Reduction → Support
  | .asum => .asum
  | .iamax => .iamax
  | .nrm2 => .nrm2

end CodeModule

open CodeModule

/-- The statement of an instruction. -/
def Instr.emit : Instr Float → Emit Stmt
  | input slot arg nonzero => return .load slot arg nonzero
  | output res nonzero slot => return .store res nonzero slot
  | const slot v => return .set slot v
  | apply c slot x y => do
    match c.op? with
    | some (.unary u) =>
      if let some s := Support.ofHelper? (Op.unary u).helper then
        needSupport s
      return .unary u slot x
    | some (.binary b) =>
      if let some s := Support.ofHelper? (Op.binary b).helper then
        needSupport s
      return .binary b slot x y
    | _ => throw (.fault .outOfRange)
  | gather slot offset => return .gather slot offset
  | scatter offset slot => return .scatter offset slot
  | constArray offset values => do
    needSupport .copy
    let table ← modifyGet (addConstant values)
    return .call none .copy
      [.constants table, .count (Int64.ofNat values.length), .work offset]
  | constElement slot values index => do
    let table ← (← get).getConstant values
    return .element slot table index
  | fill offset n v => callSupport none .fill [.work offset, .count n, .value v]
  | copy source n target => callSupport none .copy [.work source, .count n, .work target]
  | swap n x y => callSupport none .swap [.count n, .work x, .work y]
  | scale n alpha x => callSupport none .scal [.count n, .slot alpha, .work x]
  | axpy n alpha x y => callSupport none .axpy [.count n, .slot alpha, .work x, .work y]
  | dot slot n x y => callSupport (some slot) .dot [.count n, .work x, .work y]
  | reduce kind slot n x => callSupport (some slot) (supportOf kind) [.count n, .work x]
  | bilinear slot a sp x y => do
    needSupport .bilin
    let sp ← needPattern sp
    return .call (some slot) .bilin [.work a, sp, .work x, .work y]
  | rank1 a sp alpha x y => do
    needSupport .rank1
    let sp ← needPattern sp
    return .call none .rank1 [.work a, sp, .slot alpha, .work x, .work y]
  | project source spSource target spTarget temporary => do
    -- Between equal patterns nothing moves within the columns.
    if spSource.map (·.pattern) = spTarget.map (·.pattern) then
      callSupport none .copy
        [.work source, .count (Int64.ofNat (Routine.nonzeros [spSource])), .work target]
    else
      needSupport .project
      let sp ← needPattern spSource
      let sq ← needPattern spTarget
      return .call none .project [.work source, sp, .work target, sq, .work temporary]
  | transpose source spSource target spTarget temporary => do
    needSupport .trans
    let sp ← needPattern spSource
    let sq ← needPattern spTarget
    return .call none .trans [.work source, sp, .work target, sq, .iwork temporary]
  | multiply x spX y spY z spZ temporary transposed => do
    needSupport .mtimes
    let sp ← needPattern spX
    let sq ← needPattern spY
    let sr ← needPattern spZ
    return .call none .mtimes [.work x, sp, .work y, sq, .work z, sr, .work temporary,
      .count (if transposed then 1 else 0)]
  | external slot name args => do
    modify (addExternal { name, arity := args.length })
    return .external slot name args

namespace CodeModule

/-- The number of names that can be listed at once. -/
def nameCapacity : Int64 := 17592186044416

/-- The tables of the patterns of arguments. -/
def argumentTables (patterns : List (Option SharedPattern)) : Emit (List Nat) :=
  (patterns.filterMap id).mapM fun sp => modifyGet (addPattern sp)

/-- Add a routine to the module. -/
def add (f : Routine Float) : Emit Unit := do
  f.validate
  let m ← get
  if m.sections.any (·.routine.name = f.name) then
    throw (.issue (.alreadyDefined f.name m.name))
  let inputTables ← argumentTables f.inputs
  let outputTables ← argumentTables f.outputs
  let stmts ← f.body.zipIdx.mapM fun (instr, i) =>
    instr.emit.adapt
      (.within ("function " ++ f.name ++ ": instruction " ++ toString i ++ ": "))
  modify (debug "function"
    [("name", .text f.name), ("instructions", .number f.body.length)])
  if !m.options.scalarsInWork && nameCapacity < f.scalars then
    modify fun m => { m with pieces := m.pieces ++ [.opening f.name] }
    throw (.fault .outOfRange)
  if m.options.withMex then
    [Support.fill, .fromMex, .toMex].forM needSupport
  modify fun m => { m with
    pieces := m.pieces ++ [.whole { routine := f, stmts, inputTables, outputTables }] }

end CodeModule

end Tangent
