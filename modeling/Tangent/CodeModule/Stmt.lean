import Tangent.Catalog.CText
import Tangent.CodeModule.Literal
import Tangent.CodeModule.Support

/-!
# Statements

An instruction becomes one C statement. A statement refers to scalar slots, to places in the work
vectors and to the tables of the module, all by number; where the scalar slots are is decided when
the statement is written (`Layout`).
-/

namespace Tangent.CodeModule

/-- An argument of a support routine. -/
inductive Arg
  | slot (i : Int64)
  /-- The work vector from an offset on. -/
  | work (offset : Int64)
  /-- The integer work vector from an offset on. -/
  | iwork (offset : Int64)
  | count (n : Int64)
  | value (v : Float)
  /-- A table of the integer pool, which holds a pattern. -/
  | pattern (table : Nat)
  /-- A table of the real pool. -/
  | constants (table : Nat)

inductive Stmt
  | load (slot arg nonzero : Int64)
  | store (res nonzero slot : Int64)
  | set (slot : Int64) (value : Float)
  | unary (op : Unary) (slot x : Int64)
  | binary (op : Binary) (slot x y : Int64)
  | gather (slot offset : Int64)
  | scatter (offset slot : Int64)
  /-- Load an element of a table of the real pool. -/
  | element (slot : Int64) (table : Nat) (index : Int64)
  /-- Call a support routine, and keep its result if there is one. -/
  | call (slot : Option Int64) (routine : Support) (args : List Arg)
  | external (slot : Int64) (name : String) (args : List Int64)

/-- Where the scalar slots are: in local variables, or in the work vector after the given number
of its elements. -/
inductive Layout
  | locals
  | inWork (offset : Int64)

/-- The C text of a scalar slot. -/
def Layout.slot : Layout → Int64 → String
  | locals, i => "a" ++ toString i
  | inWork offset, i => "w[" ++ toString (offset + i) ++ "]"

/-- A pointer moved by an offset. -/
def shifted (base : String) (offset : Int64) : String :=
  if offset = 0 then base else base ++ "+" ++ toString offset

/-- The name of a table that holds a pattern. -/
def patternTable (i : Nat) : String :=
  "s" ++ toString i

/-- The name of a table of reals. -/
def realTable (i : Nat) : String :=
  "c" ++ toString i

def Arg.text (layout : Layout) : Arg → String
  | slot i => layout.slot i
  | work offset => shifted "w" offset
  | iwork offset => shifted "iw" offset
  | count n => toString n
  | value v => literal v
  | pattern table => patternTable table
  | constants table => realTable table

/-- A call with its arguments. -/
def callText (name : String) (args : List String) : String :=
  name ++ "(" ++ String.intercalate ", " args ++ ")"

def Stmt.text (layout : Layout) : Stmt → String
  | load slot arg nonzero =>
    layout.slot slot ++ " = arg[" ++ toString arg ++ "] ? arg[" ++ toString arg ++ "]["
      ++ toString nonzero ++ "] : 0;"
  | store res nonzero slot =>
    "if (res[" ++ toString res ++ "]) res[" ++ toString res ++ "][" ++ toString nonzero ++ "] = "
      ++ layout.slot slot ++ ";"
  | set slot v => layout.slot slot ++ " = " ++ literal v ++ ";"
  | unary op slot x => layout.slot slot ++ " = " ++ op.write (layout.slot x) ++ ";"
  | binary op slot x y =>
    layout.slot slot ++ " = " ++ op.write (layout.slot x) (layout.slot y) ++ ";"
  | gather slot offset => layout.slot slot ++ " = w[" ++ toString offset ++ "];"
  | scatter offset slot => "w[" ++ toString offset ++ "] = " ++ layout.slot slot ++ ";"
  | element slot table index =>
    layout.slot slot ++ " = " ++ realTable table ++ "[" ++ toString index ++ "];"
  | call slot routine args =>
    slot.elim "" (fun i => layout.slot i ++ " = ")
      ++ callText routine.name (args.map (·.text layout)) ++ ";"
  | external slot name args =>
    layout.slot slot ++ " = " ++ callText name (args.map layout.slot) ++ ";"

end Tangent.CodeModule
