import Tangent.Catalog.Op

/-!
# The C text of an operation

`Unary.write` and `Binary.write` turn the C texts of the operands into the C text of the result.
Most operations are calls of the function of their own name; arithmetic, comparisons and logic
are written with operators, always in parentheses, so that no precedence matters.
-/

namespace Tangent

/-- The C text of a unary operation. -/
def Unary.write (u : Unary) (x : String) : String :=
  match u with
  | .assign => x
  | .neg => "(-" ++ x ++ ")"
  | .twice => "(2.*" ++ x ++ ")"
  | .not => "(!" ++ x ++ ")"
  | .inv => "(1./" ++ x ++ ")"
  | u => u.name ++ "(" ++ x ++ ")"

/-- The C operator of a binary operation that has one. -/
def Binary.operator? : Binary → Option String
  | .add => some "+"
  | .sub => some "-"
  | .mul => some "*"
  | .div => some "/"
  | .lt => some "<"
  | .le => some "<="
  | .eq => some "=="
  | .ne => some "!="
  | .and => some "&&"
  | .or => some "||"
  | _ => none

/-- The C text of a binary operation. -/
def Binary.write (b : Binary) (x y : String) : String :=
  match b.operator?, b with
  | some sign, _ => "(" ++ x ++ sign ++ y ++ ")"
  | none, .constpow => "pow(" ++ x ++ "," ++ y ++ ")"
  | none, .ifElseZero => "(" ++ x ++ "?" ++ y ++ ":0)"
  | none, .lift => x
  | none, b => b.name ++ "(" ++ x ++ "," ++ y ++ ")"

/-- The C text of an operation on two operand texts; a leaf has none. -/
def Op.write? (op : Op) (x y : String) : Option String :=
  match op with
  | .unary u => some (u.write x)
  | .binary b => some (b.write x y)
  | _ => none

end Tangent
