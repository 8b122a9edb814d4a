import Tangent.Program.Record
import Tangent.Routine.Validate
import Tangent.SparseMatrix
import Tangent.Yaml.Read

/-!
# Programs

A program is a set of named patterns and a list of routines. It is made from the records of a
document: patterns are built first, then each function, whose instructions refer to patterns and
operations by their names. Every routine is validated.
-/

namespace Tangent

structure Program where
  /-- The patterns by name, the predefined one first. -/
  patterns : List (String × SharedPattern)
  routines : List (Routine Float)

namespace Program

/-- The name of the predefined pattern of a scalar. -/
def scalarName : String := "scalar"

/-! ## Patterns -/

/-- The pattern that a record describes: dense, if it lists neither columns nor rows. -/
def PatternRecord.build (r : PatternRecord) : Result Pattern :=
  if r.nrow < 0 || r.ncol < 0 then .inconsistent (.negativeSize r.nrow r.ncol)
  else match r.colind, r.row with
    | none, none => Pattern.dense r.nrow r.ncol
    | colind, row => Pattern.ofColumns r.nrow r.ncol (colind.getD []) (row.getD [])

/-- Declare one pattern. -/
def declare (patterns : List (String × SharedPattern)) :
    String × PatternRecord → Building (List (String × SharedPattern))
  | (name, r) => do
    if name = scalarName then
      throw (.issue (.predefinedPattern name))
    let p ← r.build.within ("pattern " ++ name ++ ": ")
    return patterns ++ [(name, ← SharedPattern.share p)]

/-! ## Functions -/

/-- A declared pattern. -/
def pattern (patterns : List (String × SharedPattern)) (name : String) : Result SharedPattern :=
  match patterns.lookup name with
  | some sp => .ok sp
  | none => .error (.missing (.declaredPattern name))

/-- Several declared patterns. All that are missing are reported together. -/
def patternsOf (patterns : List (String × SharedPattern)) (names : List String) :
    List Error × List (Option SharedPattern) :=
  (names.filterMap fun name => match pattern patterns name with
      | .ok _ => none
      | .error e => some e,
    names.map fun name => patterns.lookup name)

/-- Several declared patterns, or one error. -/
def allPatterns (patterns : List (String × SharedPattern)) (names : List String) :
    Result (List (Option SharedPattern)) :=
  let (errors, found) := patternsOf patterns names
  match Error.combine? errors with
  | some e => .error e
  | none => .ok found

/-- The instruction that a record describes. -/
def InstrRecord.build (patterns : List (String × SharedPattern)) (r : InstrRecord) :
    Result (Instr Float) :=
  match r.kind with
  | "input" => return .input r.slot r.arg r.nz
  | "output" => return .output r.res r.nz r.slot
  | "const" => return .const r.slot r.value
  | "apply" =>
    match Op.ofName? r.op with
    | some op => return .apply (Opcode.ofOp op) r.slot r.x r.y
    | none => .error (.missing (.operation r.op))
  | "gather" => return .gather r.slot r.offset
  | "scatter" => return .scatter r.offset r.slot
  | "const_array" => return .constArray r.offset r.values
  | "const_elem" => return .constElement r.slot r.values r.index
  | "fill" => return .fill r.offset r.n r.value
  | "copy" => return .copy r.src r.n r.dst
  | "swap" => return .swap r.n r.x r.y
  | "scal" => return .scale r.n r.alpha r.x
  | "axpy" => return .axpy r.n r.alpha r.x r.y
  | "dot" => return .dot r.slot r.n r.x r.y
  | "asum" => return .reduce .asum r.slot r.n r.x
  | "iamax" => return .reduce .iamax r.slot r.n r.x
  | "nrm2" => return .reduce .nrm2 r.slot r.n r.x
  | "bilin" => return .bilinear r.slot r.a (← pattern patterns r.sp) r.x r.y
  | "rank1" => return .rank1 r.a (← pattern patterns r.sp) r.alpha r.x r.y
  | "project" => do
    let sps ← allPatterns patterns [r.spSrc, r.spDst]
    return .project r.src (sps.getD 0 none) r.dst (sps.getD 1 none) r.w
  | "trans" => do
    let sps ← allPatterns patterns [r.spSrc, r.spDst]
    return .transpose r.src (sps.getD 0 none) r.dst (sps.getD 1 none) r.iw
  | "mtimes" => do
    let sps ← allPatterns patterns [r.spX, r.spY, r.spZ]
    return .multiply r.x (sps.getD 0 none) r.y (sps.getD 1 none) r.z (sps.getD 2 none) r.w
      r.transpose
  | "external" => return .external r.slot r.name r.args
  | kind => .issue (.unknownInstruction kind)

/-- The routine that a record describes. -/
def FunctionRecord.build (patterns : List (String × SharedPattern)) (r : FunctionRecord) :
    Result (Routine Float) :=
  .within ("function " ++ r.name ++ ": ") do
    let (inputErrors, inputs) := patternsOf patterns r.inputs
    let (outputErrors, outputs) := patternsOf patterns r.outputs
    if let some e := Error.combine? (inputErrors ++ outputErrors) then
      .error e
    let body ← r.body.zipIdx.mapM fun (instr, i) =>
      .within ("instruction " ++ toString i ++ ": ") (instr.build patterns)
    return {
      name := r.name
      inputs, outputs, body
      scalars := r.scalars
      work := r.work
      iwork := r.iwork }

/-- The routine that a record describes, validated. -/
def FunctionRecord.routine (patterns : List (String × SharedPattern)) (r : FunctionRecord) :
    Result (Routine Float) := do
  let f ← r.build patterns
  f.validate
  return f

/-! ## Programs -/

/-- The program that records describe. -/
def ofRecord (r : ProgramRecord) : Building Program := do
  let patterns ← r.patterns.foldlM declare [(scalarName, SharedPattern.scalar)]
  let routines ← r.functions.mapM fun f => (liftM (f.routine patterns) : Building _)
  return { patterns, routines }

/-- The program that a document describes. -/
def ofText (text : String) : Building Program := do
  match (Yaml.read? text).join.map ProgramRecord.ofYaml with
  | some (.ok r) => ofRecord r
  | some (.error stop) => throw (stop.error "program")
  | none => throw (.undecodable "program")

/-- The first routine of a name. -/
def routine (p : Program) (name : String) : Result (Routine Float) :=
  match p.routines.find? (·.name = name) with
  | some f => .ok f
  | none => .error (.missing (.function name))

end Program

end Tangent
