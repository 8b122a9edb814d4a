import Tangent.CodeModule.Options
import Tangent.CodeModule.Pool
import Tangent.CodeModule.Stmt
import Tangent.CodeModule.SupportText
import Tangent.Log
import Tangent.OrderedSet
import Tangent.Pattern.Compress
import Tangent.Routine.Instr

/-!
# Modules of generated code

A module collects routines and what their code refers to: headers, support routines, tables of
integers and reals, and external functions. Everything is registered once and keeps its place.
Patterns are registered by their key: a pattern with another key is looked at again, although it
shares the table of an equal one.
-/

namespace Tangent

namespace CodeModule

/-- A header, which may be included only where a macro is defined. -/
structure Include where
  file : String
  guardedBy : Option String := none
deriving DecidableEq

/-- A function of reals that is defined elsewhere. -/
structure External where
  name : String
  arity : Nat
deriving DecidableEq

/-- The code of a routine, with the tables of the patterns of its arguments. -/
structure Section where
  routine : Routine Float
  stmts : List Stmt
  inputTables : List Nat
  outputTables : List Nat

/-- A stretch of the generated text: a whole routine, or only the opening line of one that was
given up there. -/
inductive Piece
  | whole (code : Section)
  | opening (name : String)

end CodeModule

open CodeModule

structure CodeModule where
  options : Options
  name : String
  /-- The name of the logger of the module. -/
  logger : String
  includes : OrderedSet Include := OrderedSet.empty
  support : OrderedSet Support := OrderedSet.empty
  /-- The text of the support routines, line by line. -/
  supportText : List String := []
  integers : Pool Int64 := { kind := PoolKind.integers }
  /-- The tables of reals, as bits. -/
  reals : Pool UInt64 := { kind := PoolKind.reals }
  /-- The tables of the registered patterns, by their keys. -/
  patterns : List (Nat × Nat) := []
  externals : List External := []
  pieces : List Piece := []
  records : Array Log.Record := #[]

namespace CodeModule

/-- The module changes, and an error may stop the changes. What was changed before stays. -/
abbrev Emit := ExceptT Error (StateM CodeModule)

/-- The routines of the module. -/
def sections (m : CodeModule) : List Section :=
  m.pieces.filterMap fun
    | .whole code => some code
    | .opening _ => none

/-! ## Registering -/

/-- Write a record into the log of the module. -/
def debug (message : String) (fields : List (String × Log.Value)) (m : CodeModule) :
    CodeModule :=
  { m with records := m.records.push { level := .debug, logger := m.logger, message, fields } }

def addInclude (file : Include) (m : CodeModule) : CodeModule :=
  if file ∈ m.includes then m
  else { m with includes := m.includes.insert file }.debug "include" [("file", .text file.file)]

/-- Write the text of a support routine, after what it includes. -/
def defineSupport (s : Support) (m : CodeModule) : CodeModule :=
  let m := s.includes.foldl (fun m file => m.addInclude { file }) m
  { m with
    support := m.support.insert s
    supportText := m.supportText ++ s.lines ++ [""] }.debug "auxiliary" [("name", .text s.name)]

/-- Register a support routine, and before it those that it calls. -/
def addSupport (s : Support) (m : CodeModule) : CodeModule :=
  if s ∈ m.support then m
  else (s.needs.attach.foldl (fun m t => addSupport t.1 m) m).defineSupport s
termination_by s.needs.length
decreasing_by
  rw [Support.needs_of_mem_needs t.2]
  exact List.length_pos_of_mem t.2

/-- Register a support routine given by its number. -/
def addSupportNumber (n : Int64) : Emit Unit :=
  match Support.ofNumber? n with
  | some s => modify (addSupport s)
  | none => throw (.internal ("unknown auxiliary routine " ++ Support.textOf n))

/-- The table of a pattern, if it is registered. -/
def patternTable? (m : CodeModule) (sp : SharedPattern) : Option Nat :=
  m.patterns.lookup sp.key

/-- The table of a pattern, which is registered if it is not. -/
def addPattern (sp : SharedPattern) (m : CodeModule) : Nat × CodeModule :=
  match m.patternTable? sp with
  | some i => (i, m)
  | none =>
    let isNew := (m.integers.find? sp.pattern.compress).isNone
    let (i, integers) := m.integers.add sp.pattern.compress
    (i, { m with integers, patterns := m.patterns ++ [(sp.key, i)] }.debug "sparsity"
      [("index", .number i), ("pattern", .text sp.pattern.describe), ("new", .flag isNew)])

/-- The table of a registered pattern. -/
def getPattern (m : CodeModule) (sp : SharedPattern) : Result Nat :=
  match m.patternTable? sp with
  | some i => .ok i
  | none => .error (.missing (.registeredPattern sp.pattern.describe m.name))

/-- The bits of an array. -/
def wordsOf (values : List Float) : List UInt64 :=
  values.map Float.toBits

/-- The table of an array, given by its bits, which is registered if it is not. -/
def addWords (words : List UInt64) (m : CodeModule) : Nat × CodeModule :=
  match m.reals.find? words with
  | some i => (i, m)
  | none =>
    let (i, reals) := m.reals.add words
    (i, { m with reals }.debug "constant" [("index", .number i), ("size", .number words.length)])

def addConstant (values : List Float) (m : CodeModule) : Nat × CodeModule :=
  m.addWords (wordsOf values)

/-- Doubles in brackets, separated by blanks. -/
def valuesText (values : List Float) : String :=
  "[" ++ String.intercalate " " (values.map Decimal.general) ++ "]"

/-- The table of a registered array, given by its bits. -/
def getWords (m : CodeModule) (words : List UInt64) : Result Nat :=
  match m.reals.find? words with
  | some i => .ok i
  | none =>
    .error (.missing (.registeredConstant (valuesText (words.map Float.ofBits)) m.name))

def getConstant (m : CodeModule) (values : List Float) : Result Nat :=
  m.getWords (wordsOf values)

def addExternal (f : External) (m : CodeModule) : CodeModule :=
  if f ∈ m.externals then m else { m with externals := m.externals ++ [f] }

/-! ## New modules -/

/-- File names that one operating system keeps to itself. -/
def reservedNames : List String :=
  ["CON", "PRN", "AUX", "NUL", "COM1", "COM2", "COM3", "COM4", "COM5", "COM6", "COM7", "COM8",
    "COM9", "LPT1", "LPT2", "LPT3", "LPT4", "LPT5", "LPT6", "LPT7", "LPT8", "LPT9"]

/-- The headers that the options ask for. -/
def initialIncludes (options : Options) : List Include :=
  (if options.withMain then [{ file := "stdio.h" }] else [])
    ++ (if options.withMex || options.withMain then [{ file := "string.h" }] else [])
    ++ (if options.withMex then [{ file := "mex.h", guardedBy := some "MATLAB_MEX_FILE" }] else [])
    ++ [{ file := "math.h" }]

/-- A module without routines. Its logger is named below another. -/
def create (options : Options) (name : String) (parent : String) : Result CodeModule := do
  options.validate
  unless isIdentifier name do
    .issue (.badIdentifier "module name" name)
  if name.toUpper ∈ reservedNames then
    .issue (.reservedName name (name ++ options.suffix))
  let m : CodeModule := { options, name, logger := Log.named parent name }
  return (initialIncludes options).foldl (fun m file => m.addInclude file) m

end CodeModule

end Tangent
