/-!
# The operations

An expression is built from constants, free symbols, and unary and binary operations. The
catalog lists them all in one fixed order (`Op.all`); the place of an operation in that list is
its number, and every operation has a name. An `Opcode` is a number that may or may not belong
to the catalog: it is what a scheduled instruction stores, and `Opcode.op?` says which operation
it stands for, if any.
-/

namespace Tangent

/-- Operations with one operand. -/
inductive Unary
  | assign | neg | exp | log | sqrt | sq | twice | sin | cos | tan | asin | acos | atan
  | floor | ceil | not | erf | fabs | sign | inv | sinh | cosh | tanh | asinh | acosh | atanh
  | erfinv
deriving DecidableEq

/-- Operations with two operands. `pow` raises to a variable exponent and `constpow` to a
constant one; `printme` is its first operand, printed under the tag given by the second;
`ifElseZero` is its second operand where the first is not zero; `lift` is its first operand, the
second being a hint. -/
inductive Binary
  | add | sub | mul | div | pow | constpow | lt | le | fmod | eq | ne | and | or | copysign
  | fmin | fmax | printme | atan2 | ifElseZero | lift
deriving DecidableEq

/-- What a node of an expression can be. -/
inductive Op
  | const
  | symbol
  | unary (u : Unary)
  | binary (b : Binary)
deriving DecidableEq

/-! ## Names -/

def Unary.name : Unary → String
  | .assign => "assign"
  | .neg => "neg"
  | .exp => "exp"
  | .log => "log"
  | .sqrt => "sqrt"
  | .sq => "sq"
  | .twice => "twice"
  | .sin => "sin"
  | .cos => "cos"
  | .tan => "tan"
  | .asin => "asin"
  | .acos => "acos"
  | .atan => "atan"
  | .floor => "floor"
  | .ceil => "ceil"
  | .not => "not"
  | .erf => "erf"
  | .fabs => "fabs"
  | .sign => "sign"
  | .inv => "inv"
  | .sinh => "sinh"
  | .cosh => "cosh"
  | .tanh => "tanh"
  | .asinh => "asinh"
  | .acosh => "acosh"
  | .atanh => "atanh"
  | .erfinv => "erfinv"

def Binary.name : Binary → String
  | .add => "add"
  | .sub => "sub"
  | .mul => "mul"
  | .div => "div"
  | .pow => "pow"
  | .constpow => "constpow"
  | .lt => "lt"
  | .le => "le"
  | .fmod => "fmod"
  | .eq => "eq"
  | .ne => "ne"
  | .and => "and"
  | .or => "or"
  | .copysign => "copysign"
  | .fmin => "fmin"
  | .fmax => "fmax"
  | .printme => "printme"
  | .atan2 => "atan2"
  | .ifElseZero => "if_else_zero"
  | .lift => "lift"

/-- The operations whose operands may be swapped. -/
def Binary.commutative : Binary → Bool
  | .add | .mul | .eq | .ne | .and | .or | .fmin | .fmax => true
  | _ => false

namespace Op

def name : Op → String
  | const => "const"
  | symbol => "symbol"
  | unary u => u.name
  | binary b => b.name

/-- The number of operands. -/
def arity : Op → Nat
  | const | symbol => 0
  | unary _ => 1
  | binary _ => 2

def isLeaf : Op → Bool
  | const | symbol => true
  | _ => false

def commutative : Op → Bool
  | binary b => b.commutative
  | _ => false

/-- The catalog, in the order of the operation numbers. -/
def all : List Op :=
  [const, symbol, unary .assign, binary .add, binary .sub, binary .mul, binary .div, unary .neg,
    unary .exp, unary .log, binary .pow, binary .constpow, unary .sqrt, unary .sq, unary .twice,
    unary .sin, unary .cos, unary .tan, unary .asin, unary .acos, unary .atan, binary .lt,
    binary .le, unary .floor, unary .ceil, binary .fmod, binary .eq, binary .ne, unary .not,
    binary .and, binary .or, unary .erf, unary .fabs, unary .sign, binary .copysign,
    binary .fmin, binary .fmax, unary .inv, unary .sinh, unary .cosh, unary .tanh, unary .asinh,
    unary .acosh, unary .atanh, unary .erfinv, binary .printme, binary .atan2,
    binary .ifElseZero, binary .lift]

def number (op : Op) : Nat :=
  all.idxOf op

/-- The operation of a given name. -/
def ofName? (s : String) : Option Op :=
  all.find? fun op => op.name == s

end Op

/-! ## Numbers that may denote an operation -/

/-- An operation number, not necessarily one of the catalog. -/
structure Opcode where
  number : Int64
deriving DecidableEq

namespace Opcode

def ofOp (op : Op) : Opcode :=
  ⟨Int64.ofNat op.number⟩

instance : Coe Op Opcode := ⟨ofOp⟩

/-- The operation with this number, if there is one. -/
def op? (c : Opcode) : Option Op :=
  if 0 ≤ c.number then Op.all[c.number.toNatClampNeg]? else none

/-- The name of the operation, or the bare number outside the catalog. -/
def text (c : Opcode) : String :=
  match c.op? with
  | some op => op.name
  | none => "Code(" ++ toString c.number.toInt ++ ")"

theorem op?_ofOp (op : Op) : (ofOp op).op? = some op := by
  rcases op with _ | _ | u | b
  · decide
  · decide
  · cases u <;> decide
  · cases b <;> decide

end Opcode

/-! ## Auxiliary routines an operation needs in generated code -/

/-- The support routine that the C text of an operation calls. -/
inductive Helper
  | none | sq | sign | erfinv | printme
deriving DecidableEq

namespace Helper

def all : List Helper :=
  [none, sq, sign, erfinv, printme]

def name : Helper → String
  | none => "none"
  | sq => "sq"
  | sign => "sign"
  | erfinv => "erfinv"
  | printme => "printme"

/-- The text of a helper given by its number. -/
def textOf (n : Int64) : String :=
  match if 0 ≤ n then all[n.toNatClampNeg]? else Option.none with
  | some h => h.name
  | Option.none => "Helper(" ++ toString n.toInt ++ ")"

end Helper

def Op.helper : Op → Helper
  | .unary .sq => .sq
  | .unary .sign => .sign
  | .unary .erfinv => .erfinv
  | .binary .printme => .printme
  | _ => .none

end Tangent
