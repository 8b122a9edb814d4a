import Tangent.CodeModule.OptionsText
import Tangent.Command.Help
import Tangent.Command.Parse
import Tangent.Program.Load
import Tangent.Shell.Process
import Tangent.Toolchain.Compile

/-!
# The command line

`ops` lists the operations, `generate` writes the code of a program, and `compile` also builds a
library, with a toolchain that a shell can start. What a command does to the disk stays, even if it
fails later.
-/

namespace Tangent.Command

/-! ## The list of operations -/

/-- The line of an operation. -/
def opLine (op : Op) : String :=
  padded 14 op.name ++ " " ++ toString op.arity
    ++ (if op.commutative then " commutative" else "")
    ++ (if op.helper = .none then "" else " helper=" ++ op.helper.name) ++ "\n"

/-- A line for each operation with operands. -/
def opsText : String :=
  String.join ((Op.all.filter fun op => !op.isLeaf).map opLine)

/-! ## Loading -/

/-- The code generator options: those of the configuration, if there is one. -/
def loadOptions (s : Settings) : Work CodeModule.Options := do
  let options ← if s.config = "" then pure {} else do
    let entry ← ((← get).disk.openPath s.config).within "cannot open configuration: "
    let loaded : Result CodeModule.Options := match entry with
      | .file content => CodeModule.Options.ofText content
      | .folder => .error (.undecodable "code generator options")
    loaded.within ("cannot load configuration " ++ s.config ++ ": ")
  return if s.out = "" then options else { options with dir := s.out }

/-- The program in a file. -/
def loadProgram (path : String) : Work Program := do
  let disk := (← get).disk
  if disk.look path matches .error .absent then
    throw (.issue (.noProgram path))
  let entry ← (disk.openPath path).within "cannot open program: "
  let loaded : Result Program := match entry with
    | .file content => ((Program.ofText content).run.run Build.first).1
    | .folder => .error (.undecodable "program")
  loaded.within ("cannot load program " ++ path ++ ": ")

/-- The routines of a program that the settings choose, or all of them. -/
def chosen (s : Settings) (p : Program) : Result (List (Routine Float)) :=
  if s.functions.isEmpty then .ok p.routines else s.functions.mapM p.routine

/-- The name of the module of a program: that of its file, unless another is given. -/
def moduleName (s : Settings) (path : String) : String :=
  if s.name = "" then
    String.ofList ((Path.withoutSuffix (Path.base path)).toList.map fun c =>
      if c = '-' then '_' else c)
  else s.name

/-! ## Commands -/

/-- Run a command on a program. The result is what it prints. -/
def runOn (v : Verb) (s : Settings) (path : String) : Work String := do
  let options ← loadOptions s
  let routines ← chosen s (← loadProgram path)
  let name := moduleName s path
  if v = .compile then
    return (← Toolchain.compile options name programName s.toolchain routines) ++ "\n"
  let (generated, records) := CodeModule.generateAll options name programName routines
  Work.note records
  let paths ← (← generated).write options.dir
  return String.join (paths.map (· ++ "\n"))

/-- Run a command with its operands. -/
def runVerb (v : Verb) (s : Settings) (operands : List String) : Work String :=
  if s.help then return v.help
  else match v, operands with
    | .ops, [] => return opsText
    | .ops, word :: _ =>
      throw (.issue (.unknownCommand word (programName ++ " " ++ v.name) []))
    | v, [path] => runOn v s path
    | _, operands => throw (.issue (.operandCount 1 operands.length))

/-- What the arguments ask for: a command with its settings and operands, or help. -/
inductive Request
  | command (verb : Verb) (settings : Settings) (operands : List String)
  | help (text : String)

/-- The shells for which there is a completion script. -/
def completionShells : List String := ["bash", "fish", "powershell", "zsh"]

/-- The words by which a completion script asks how its arguments go on. -/
def completionWords : List String := ["__complete", "__completeNoDesc"]

/-- Read the arguments. -/
def request (args : List String) : Result Request :=
  match firstWord? globalFlags args with
  | none => do
    let _ ← parse (.help :: globalFlags) args
    return .help overview
  | some word =>
    let rest := withoutWord globalFlags word args
    match Verb.ofName? word with
    | some v => do
      let (settings, operands) ← parse (v.ownFlags ++ globalFlags) rest
      return .command v settings operands
    | none =>
      if word = "help" then do
        let (_, operands) ← parse (.help :: globalFlags) rest
        return .help ((operands.head?.bind Verb.ofName?).elim overview Verb.help)
      else if word = "completion" then do
        let (settings, operands) ← parse (.help :: globalFlags) rest
        match settings.help, operands with
        | false, shell :: word :: _ =>
          if shell ∈ completionShells then
            .issue (.unknownCommand word (programName ++ " completion " ++ shell) [])
        | _, _ => pure ()
        return .help overview
      else if word ∈ completionWords then
        if rest.isEmpty then .issue (.fewOperands 1 0) else return .help ""
      else .issue (.unknownCommand word programName (suggestions word))

/-- What a run leaves. -/
structure Outcome where
  error : Option Error
  output : String
  log : List Log.Record
  disk : Disk

/-- Run the program. Debug records are shown only if they are asked for. -/
def run (args : List String) (disk : Disk) : Outcome :=
  match request args with
  | .error e => { error := some e, output := "", log := [], disk }
  | .ok (.help text) => { error := none, output := text, log := [], disk }
  | .ok (.command v s operands) =>
    let (result, w) := (runVerb v s operands).run.run { disk }
    let (error, output) := match result with
      | .ok output => (none, output)
      | .error e => (some e, "")
    { error, output, disk := w.disk
      log := w.log.toList.filter fun r => s.verbose || r.level ≠ .debug }

end Tangent.Command
