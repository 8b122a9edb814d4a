import Tangent.Yaml.Decode

/-!
# The records of a program document

A program document declares patterns by name and lists functions. The records hold what the
document says; what it leaves out is zero, empty or false. A list that is written down is told
apart from one that is left out where that makes a difference.
-/

namespace Tangent.Program

structure PatternRecord where
  nrow : Int64 := 0
  ncol : Int64 := 0
  colind : Option (List Int64) := none
  row : Option (List Int64) := none

structure InstrRecord where
  kind : String := ""
  op : String := ""
  slot : Int64 := 0
  arg : Int64 := 0
  nz : Int64 := 0
  res : Int64 := 0
  x : Int64 := 0
  y : Int64 := 0
  z : Int64 := 0
  n : Int64 := 0
  offset : Int64 := 0
  src : Int64 := 0
  dst : Int64 := 0
  a : Int64 := 0
  alpha : Int64 := 0
  w : Int64 := 0
  iw : Int64 := 0
  index : Int64 := 0
  value : Float := 0
  values : List Float := []
  sp : String := ""
  spSrc : String := ""
  spDst : String := ""
  spX : String := ""
  spY : String := ""
  spZ : String := ""
  transpose : Bool := false
  name : String := ""
  args : List Int64 := []

structure FunctionRecord where
  name : String := ""
  inputs : List String := []
  outputs : List String := []
  scalars : Int64 := 0
  work : Int64 := 0
  iwork : Int64 := 0
  body : List InstrRecord := []

structure ProgramRecord where
  /-- The declared patterns, in the order of the document. -/
  patterns : List (String × PatternRecord) := []
  functions : List FunctionRecord := []

/-! ## Reading records -/

/-- A list that replaces another; nothing stands for no list. -/
def listOr {α : Type} (item : Yaml → Yaml.Decoding (Option α)) : Yaml → Yaml.Decoding (List α) :=
  Yaml.replace (Yaml.list item) []

def PatternRecord.put (name : String) (v : Yaml) (r : PatternRecord) :
    Yaml.Decoding PatternRecord :=
  match name with
  | "nrow" => return { r with nrow := ← v.replace Yaml.int r.nrow }
  | "ncol" => return { r with ncol := ← v.replace Yaml.int r.ncol }
  | "colind" => return { r with colind := ← v.list Yaml.int }
  | "row" => return { r with row := ← v.list Yaml.int }
  | _ => Yaml.flawed r

def InstrRecord.put (name : String) (v : Yaml) (r : InstrRecord) : Yaml.Decoding InstrRecord :=
  match name with
  | "kind" => return { r with kind := ← v.replace Yaml.text r.kind }
  | "op" => return { r with op := ← v.replace Yaml.text r.op }
  | "slot" => return { r with slot := ← v.replace Yaml.int r.slot }
  | "arg" => return { r with arg := ← v.replace Yaml.int r.arg }
  | "nz" => return { r with nz := ← v.replace Yaml.int r.nz }
  | "res" => return { r with res := ← v.replace Yaml.int r.res }
  | "x" => return { r with x := ← v.replace Yaml.int r.x }
  | "y" => return { r with y := ← v.replace Yaml.int r.y }
  | "z" => return { r with z := ← v.replace Yaml.int r.z }
  | "n" => return { r with n := ← v.replace Yaml.int r.n }
  | "offset" => return { r with offset := ← v.replace Yaml.int r.offset }
  | "src" => return { r with src := ← v.replace Yaml.int r.src }
  | "dst" => return { r with dst := ← v.replace Yaml.int r.dst }
  | "a" => return { r with a := ← v.replace Yaml.int r.a }
  | "alpha" => return { r with alpha := ← v.replace Yaml.int r.alpha }
  | "w" => return { r with w := ← v.replace Yaml.int r.w }
  | "iw" => return { r with iw := ← v.replace Yaml.int r.iw }
  | "index" => return { r with index := ← v.replace Yaml.int r.index }
  | "value" => return { r with value := ← v.replace Yaml.real r.value }
  | "values" => return { r with values := ← listOr Yaml.real v }
  | "sp" => return { r with sp := ← v.replace Yaml.text r.sp }
  | "sp_src" => return { r with spSrc := ← v.replace Yaml.text r.spSrc }
  | "sp_dst" => return { r with spDst := ← v.replace Yaml.text r.spDst }
  | "sp_x" => return { r with spX := ← v.replace Yaml.text r.spX }
  | "sp_y" => return { r with spY := ← v.replace Yaml.text r.spY }
  | "sp_z" => return { r with spZ := ← v.replace Yaml.text r.spZ }
  | "transpose" => return { r with transpose := ← v.replace Yaml.bool r.transpose }
  | "name" => return { r with name := ← v.replace Yaml.text r.name }
  | "args" => return { r with args := ← listOr Yaml.int v }
  | _ => Yaml.flawed r

def FunctionRecord.put (name : String) (v : Yaml) (r : FunctionRecord) :
    Yaml.Decoding FunctionRecord :=
  match name with
  | "name" => return { r with name := ← v.replace Yaml.text r.name }
  | "in" => return { r with inputs := ← listOr Yaml.text v }
  | "out" => return { r with outputs := ← listOr Yaml.text v }
  | "scalars" => return { r with scalars := ← v.replace Yaml.int r.scalars }
  | "work" => return { r with work := ← v.replace Yaml.int r.work }
  | "iwork" => return { r with iwork := ← v.replace Yaml.int r.iwork }
  | "body" => return { r with body := ← listOr (Yaml.record InstrRecord.put {}) v }
  | _ => Yaml.flawed r

/-- The declared patterns. One that stands for nothing is an empty record. -/
def patternRecords : Yaml → Yaml.Decoding (Option (List (String × PatternRecord))) :=
  Yaml.table (Yaml.record PatternRecord.put {}) {}

def ProgramRecord.put (name : String) (v : Yaml) (r : ProgramRecord) :
    Yaml.Decoding ProgramRecord :=
  match name with
  | "patterns" => return { r with patterns := ← v.replace patternRecords [] }
  | "functions" =>
    return { r with functions := ← listOr (Yaml.record FunctionRecord.put {}) v }
  | _ => Yaml.flawed r

/-- The record of a program. A document that stands for nothing is an empty program. -/
def ProgramRecord.ofYaml (y : Yaml) : Except Yaml.Stop ProgramRecord :=
  (y.replace (Yaml.record ProgramRecord.put {}) {}).result

end Tangent.Program
