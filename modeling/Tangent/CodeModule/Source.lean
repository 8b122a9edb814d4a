import Tangent.CodeModule.Basic
import Tangent.CodeModule.Frame

/-!
# The generated text

The source file of a module: the headers, the tables, the support routines, the routines with
their descriptions and gateways, and the dispatchers; and a header that declares the routines.
Text is put together from lines.
-/

namespace Tangent.CodeModule

/-- Lines as text. -/
def textOfLines (lines : List String) : String :=
  String.join (lines.map (· ++ "\n"))

/-- The first line of every file. -/
def banner : List String :=
  ["/* This file was automatically generated by sx */"]

/-- C linkage, opened. -/
def linkageOpen : List String :=
  ["#ifdef __cplusplus", "extern \"C\" \x7b", "#endif", ""]

/-- C linkage, closed. -/
def linkageClose : List String :=
  ["#ifdef __cplusplus", "\x7d /* extern \"C\" */", "#endif"]

/-! ## Declarations -/

/-- The C type and name of the routine itself. -/
def routineDeclaration (name : String) : String :=
  "int " ++ name ++ "(const real_t** arg, real_t** res, int* iw, real_t* w, int mem)"

/-- The C types and names of what is exposed beside a routine. -/
def describingDeclarations (name : String) : List String :=
  ["int " ++ name ++ "_n_in(void)",
    "int " ++ name ++ "_n_out(void)",
    "const int* " ++ name ++ "_sparsity_in(int i)",
    "const int* " ++ name ++ "_sparsity_out(int i)",
    "int " ++ name ++ "_work(int *sz_arg, int* sz_res, int *sz_iw, int *sz_w)"]

/-- In C++, what is exposed has C linkage. -/
def exposed (o : Options) (declaration : String) : String :=
  if o.cpp then "extern \"C\" " ++ declaration else declaration

/-- The declarations that the header lists. -/
def Piece.declarations : Piece → List String
  | whole code => routineDeclaration code.routine.name
      :: describingDeclarations code.routine.name
  | opening name => [routineDeclaration name]

/-! ## Routines -/

/-- Where the scalars of a routine are. -/
def layoutOf (o : Options) (f : Routine Float) : Layout :=
  if o.scalarsInWork then .inWork f.work else .locals

/-- The declaration of the local variables. -/
def localLines (o : Options) (f : Routine Float) : List String :=
  if o.scalarsInWork || f.scalars ≤ 0 then []
  else
    let names := (List.range f.scalars.toNatClampNeg).map fun i =>
      Layout.locals.slot (Int64.ofNat i)
    ["  real_t " ++ String.intercalate ", " names ++ ";"]

/-- The opening lines of a routine. -/
def openingLines (o : Options) (name : String) : List String :=
  ["/* " ++ name ++ " */", exposed o (routineDeclaration name) ++ " \x7b"]

/-- A function that gives a number. -/
def numberLines (o : Options) (declaration : String) (n : Nat) : List String :=
  [exposed o declaration ++ " \x7b return " ++ toString n ++ ";\x7d", ""]

/-- A function that gives the table of each argument. -/
def switchLines (o : Options) (declaration : String) (tables : List Nat) : List String :=
  [exposed o declaration ++ " \x7b", "  switch (i) \x7b"]
    ++ tables.zipIdx.map (fun (table, i) =>
      "    case " ++ toString i ++ ": return " ++ patternTable table ++ ";")
    ++ ["    default: return 0;", "  \x7d", "\x7d", ""]

/-- A function that gives the sizes of the arguments. -/
def sizeLines (o : Options) (f : Routine Float) (declaration : String) : List String :=
  [exposed o declaration ++ " \x7b",
    "  if (sz_arg) *sz_arg = " ++ toString f.inputs.length ++ ";",
    "  if (sz_res) *sz_res = " ++ toString f.outputs.length ++ ";",
    "  if (sz_iw) *sz_iw = " ++ toString f.iwork ++ ";",
    "  if (sz_w) *sz_w = " ++ toString (workSize o f) ++ ";",
    "  return 0;", "\x7d", ""]

/-- The routine and what describes it. -/
def routineLines (o : Options) (code : Section) : List String :=
  let f := code.routine
  openingLines o f.name ++ localLines o f
    ++ code.stmts.map (fun s => "  " ++ s.text (layoutOf o f))
    ++ ["  return 0;", "\x7d", ""]
    ++ numberLines o ("int " ++ f.name ++ "_n_in(void)") f.inputs.length
    ++ numberLines o ("int " ++ f.name ++ "_n_out(void)") f.outputs.length
    ++ switchLines o ("const int* " ++ f.name ++ "_sparsity_in(int i)") code.inputTables
    ++ switchLines o ("const int* " ++ f.name ++ "_sparsity_out(int i)") code.outputTables
    ++ sizeLines o f
      ("int " ++ f.name ++ "_work(int *sz_arg, int* sz_res, int *sz_iw, int *sz_w)")

/-! ## Gateways -/

/-- The vectors of a gateway. -/
def vectorLines (f : Routine Float) (frame : Frame) : List String :=
  ["  int iw[" ++ toString frame.iwork ++ "];",
    "  real_t w[" ++ toString frame.size ++ "];",
    "  const real_t* arg[" ++ toString (max 1 f.inputs.length) ++ "];",
    "  real_t* res[" ++ toString (max 1 f.outputs.length) ++ "];"]

/-- A failure that the gateway for MATLAB reports. -/
def mexFailure (name detail : String) : String :=
  "mexErrMsgIdAndTxt(\"SX:RuntimeError\", \"Evaluation of \\\"" ++ name ++ "\\\" failed."
    ++ detail

/-- The pointers to the outputs. -/
def resultLines (frame : Frame) : List String :=
  frame.outputs.zipIdx.map fun (offset, i) =>
    "  res[" ++ toString i ++ "] = " ++ shifted "w" offset ++ ";"

/-- The gateway for MATLAB. -/
def mexLines (o : Options) (code : Section) : List String :=
  let f := code.routine
  let frame := Frame.ofRoutine o f
  let nin := toString f.inputs.length
  let nout := toString f.outputs.length
  let written := Routine.nonzeros f.outputs
  ["#ifdef MATLAB_MEX_FILE",
    "void mex_" ++ f.name
      ++ "(int resc, mxArray *resv[], int argc, const mxArray *argv[]) \x7b"]
    ++ vectorLines f frame
    ++ ["  if (argc>" ++ nin ++ ") "
        ++ mexFailure f.name (" Too many input arguments (%d, max " ++ nin ++ ")\", argc);"),
      "  if (resc>" ++ nout ++ ") "
        ++ mexFailure f.name (" Too many output arguments (%d, max " ++ nout ++ ")\", resc);")]
    ++ (frame.inputs.zip code.inputTables).zipIdx.flatMap (fun ((offset, table), i) =>
      ["  if (--argc>=0) arg[" ++ toString i ++ "] = from_mex(argv[" ++ toString i ++ "], "
          ++ shifted "w" offset ++ ", " ++ patternTable table ++ ", w+"
          ++ toString frame.temporary ++ ");",
        "  else arg[" ++ toString i ++ "] = 0;"])
    ++ (if 0 < written then
        ["  fill(" ++ shifted "w" (frame.outputs.headD 0) ++ ", " ++ toString written ++ ", 0);"]
      else [])
    ++ resultLines frame
    ++ ["  if (" ++ f.name ++ "(arg, res, iw, " ++ shifted "w" frame.work ++ ", 0)) "
      ++ mexFailure f.name "\");"]
    ++ (if f.outputs.isEmpty then [] else ["  if (resc==0) resc = 1;"])
    ++ code.outputTables.zipIdx.map (fun (table, i) =>
      "  if (--resc>=0) resv[" ++ toString i ++ "] = to_mex(" ++ patternTable table ++ ", res["
        ++ toString i ++ "]);")
    ++ ["\x7d", "#endif", ""]

/-- The entry that reads the inputs from the standard input and writes the outputs. -/
def mainLines (o : Options) (code : Section) : List String :=
  let f := code.routine
  let frame := Frame.ofRoutine o f
  let read := Routine.nonzeros f.inputs
  ["int main_" ++ f.name ++ "(int argc, char* argv[]) \x7b",
    "  int j, flag;", "  double v;", "  real_t* a;", "  const real_t* r;"]
    ++ vectorLines f frame
    ++ frame.inputs.zipIdx.map (fun (offset, i) =>
      "  arg[" ++ toString i ++ "] = " ++ shifted "w" offset ++ ";")
    ++ resultLines frame
    ++ ["  a = w;",
      "  for (j=0; j<" ++ toString read ++ "; ++j) \x7b",
      "    if (scanf(\"%lg\", &v)<=0) return 2;",
      "    *a++ = v;",
      "  \x7d",
      "  flag = " ++ f.name ++ "(arg, res, iw, " ++ shifted "w" frame.work ++ ", 0);",
      "  if (flag) return flag;",
      "  r = " ++ shifted "w" (Int64.ofNat read) ++ ";",
      "  for (j=0; j<" ++ toString (Routine.nonzeros f.outputs)
        ++ "; ++j) PRINTF(\"%.16e \", to_double(*r++));",
      "  PRINTF(\"\\n\");",
      "  return 0;", "\x7d", ""]

/-- One piece of the text. -/
def Piece.lines (o : Options) : Piece → List String
  | whole code => routineLines o code
      ++ (if o.withMex then mexLines o code else [])
      ++ (if o.withMain then mainLines o code else [])
  | opening name => openingLines o name

/-! ## Dispatchers -/

/-- The names of the routines, quoted. -/
def quotedNames (names : List String) : String :=
  String.intercalate " " (names.map fun name => "'" ++ name ++ "'")

/-- Call the gateway that the first argument names, or the first gateway. -/
def mexDispatchLines (names : List String) : List String :=
  let size := (names.map fun name => name.length + 1).foldl max 1
  ["#ifdef MATLAB_MEX_FILE",
    "void mexFunction(int resc, mxArray *resv[], int argc, const mxArray *argv[]) \x7b",
    "  char buf[" ++ toString size ++ "];",
    "  int buf_ok = argc > 0 && !mxGetString(*argv, buf, sizeof(buf));",
    "  if (!buf_ok) \x7b",
    "    mex_" ++ names.headD "" ++ "(resc, resv, argc, argv);",
    "    return;"]
    ++ names.flatMap (fun name =>
      ["  \x7d else if (strcmp(buf, \"" ++ name ++ "\")==0) \x7b",
        "    mex_" ++ name ++ "(resc, resv, argc-1, argv+1);",
        "    return;"])
    ++ ["  \x7d",
      "  mexErrMsgTxt(\"First input should be a command string. Possible values: "
        ++ quotedNames names ++ "\");",
      "\x7d", "#endif", ""]

/-- Call the entry that the first argument names. -/
def mainDispatchLines (names : List String) : List String :=
  ["int main(int argc, char* argv[]) \x7b", "  if (argc<2) \x7b", "    /* name error */"]
    ++ names.flatMap (fun name =>
      ["  \x7d else if (strcmp(argv[1], \"" ++ name ++ "\")==0) \x7b",
        "    return main_" ++ name ++ "(argc-2, argv+2);"])
    ++ ["  \x7d",
      "  fprintf(stderr, \"First input should be a command string. Possible values: "
        ++ quotedNames names ++ "\\n\");",
      "  return 1;", "\x7d", ""]

/-! ## The files -/

/-- How the internal symbols are named. -/
def stemLines (m : CodeModule) : List String :=
  let stem := if m.options.stem = "" then m.name else m.options.stem
  ["#ifdef CODEGEN_PREFIX",
    "  #define NAMESPACE_CONCAT(NS, ID) NAMESPACE_CONCAT_(NS, ID)",
    "  #define NAMESPACE_CONCAT_(NS, ID) NS ## ID",
    "  #define SX_PREFIX(ID) NAMESPACE_CONCAT(CODEGEN_PREFIX, ID)",
    "#else",
    "  #define SX_PREFIX(ID) " ++ stem ++ "_ ## ID",
    "#endif", ""]

def Include.lines (file : Include) : List String :=
  match file.guardedBy with
  | some symbol => ["#ifdef " ++ symbol, "#include <" ++ file.file ++ ">", "#endif"]
  | none => ["#include <" ++ file.file ++ ">"]

/-- The type of reals. -/
def realTypeLines (o : Options) : List String :=
  ["#ifndef real_t", "#define real_t " ++ o.realType, "#endif /* real_t */", ""]

/-- The conversions. -/
def castLines (o : Options) : List String :=
  if o.cpp then
    ["#define to_double(x) static_cast<double>(x)", "#define to_int(x) static_cast<int>(x)", ""]
  else
    ["#define to_double(x) (double) x", "#define to_int(x) (int) x", ""]

/-- The declaration of an external function. -/
def External.declaration (f : External) : String :=
  let parameters := if f.arity = 0 then ["void"] else List.replicate f.arity "real_t"
  "real_t " ++ callText f.name parameters ++ ";"

/-- The declarations of the external functions, sorted. -/
def externalLines (m : CodeModule) : List String :=
  if m.externals.isEmpty then []
  else
    let declarations := (m.externals.map (·.declaration)).mergeSort (fun a b => a ≤ b)
    ["/* External functions */"] ++ declarations.map (exposed m.options) ++ [""]

/-- What older dialects of C lack. -/
def dialectLines (o : Options) : List String :=
  if o.cpp then []
  else
    ["/* Pre-c99 compatibility */",
      "#if __STDC_VERSION__ < 199901L",
      "#define fmin SX_PREFIX(fmin)",
      "real_t fmin(real_t x, real_t y) \x7b return x<y ? x : y;\x7d",
      "#define fmax SX_PREFIX(fmax)",
      "real_t fmax(real_t x, real_t y) \x7b return x>y ? x : y;\x7d",
      "#endif", ""]

/-- How generated code prints. -/
def printLines (m : CodeModule) : List String :=
  if m.options.withMain || Support.printme ∈ m.support then
    if m.options.withMex then
      ["#ifdef MATLAB_MEX_FILE", "#define PRINTF mexPrintf", "#else", "#define PRINTF printf",
        "#endif", ""]
    else
      ["#define PRINTF printf", ""]
  else []

/-- One table. -/
def tableLines (type name : String) (elements : List String) : List String :=
  ["static const " ++ type ++ " SX_PREFIX(" ++ name ++ ")[] = \x7b"
      ++ String.intercalate ", " elements ++ "\x7d;",
    "#define " ++ name ++ " SX_PREFIX(" ++ name ++ ")", ""]

/-- All tables. -/
def allTableLines (m : CodeModule) : List String :=
  m.integers.arrays.zipIdx.flatMap (fun (v, i) =>
      tableLines "int" (patternTable i) (v.map toString))
    ++ m.reals.arrays.zipIdx.flatMap (fun (v, i) =>
      tableLines "real_t" (realTable i) (v.map fun w => literal (.ofBits w)))

/-- The support routines, in the order in which they were registered. -/
def supportLines (m : CodeModule) : List String :=
  m.supportText ++ (if m.support.toList.isEmpty then [] else [""])

/-- The names of the routines. -/
def names (m : CodeModule) : List String :=
  m.sections.map (·.routine.name)

/-- The source file. -/
def sourceLines (m : CodeModule) : List String :=
  let o := m.options
  banner ++ (if o.cpp then [] else linkageOpen)
    ++ m.stemLines
    ++ m.includes.toList.flatMap (·.lines) ++ [""]
    ++ realTypeLines o ++ castLines o ++ m.externalLines ++ dialectLines o ++ m.printLines
    ++ m.allTableLines ++ m.supportLines
    ++ m.pieces.flatMap (·.lines o)
    ++ (if o.withMex then mexDispatchLines m.names else [])
    ++ (if o.withMain then mainDispatchLines m.names else [])
    ++ (if o.cpp then [] else linkageClose)

/-- The header. -/
def headerLines (m : CodeModule) : List String :=
  banner ++ linkageOpen ++ realTypeLines m.options
    ++ m.pieces.flatMap (fun piece => piece.declarations.map fun d => exposed m.options d ++ ";")
    ++ [""] ++ linkageClose

/-- The files of a module. -/
structure Generated where
  name : String
  suffix : String
  source : String
  /-- Empty if no header was asked for. -/
  header : String

def Generated.sourceFile (g : Generated) : String :=
  g.name ++ g.suffix

def Generated.headerFile (g : Generated) : String :=
  g.name ++ ".h"

/-- The files of a module that has a routine. -/
def generate (m : CodeModule) : Result Generated :=
  if m.sections.isEmpty then .issue (.noFunction m.name)
  else .ok {
    name := m.name
    suffix := m.options.suffix
    source := textOfLines m.sourceLines
    header := if m.options.withHeader then textOfLines m.headerLines else "" }

end Tangent.CodeModule
