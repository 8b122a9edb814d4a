import Tangent.Pattern.Build

/-!
# Compressed patterns

A pattern as one list of numbers: its sizes, then a one if every place is a structural nonzero,
and otherwise its offsets and its rows. This is the form in which patterns stand in generated
code.
-/

namespace Tangent.Pattern

def compress (p : Pattern) : List Int64 :=
  [p.nrow, p.ncol] ++ (if p.isDense && 0 < p.numel then [1] else p.offsets ++ p.rows)

/-- The pattern that a list of numbers stands for. -/
def ofCompressed (list : List Int64) : Result Pattern :=
  match list with
  | nrow :: ncol :: rest =>
    if rest = [] then .inconsistent (.listTooShort list)
    else if rest = [1] && 0 < nrow * ncol then dense nrow ncol
    else if ncol < 0 || Int64.ofNat list.length < 2 + ncol + 1 then
      .inconsistent (.listTooShortFor list ncol)
    else if 2 + ncol + 1 < 0 then
      -- With so many columns, the place at which the offsets end overflows.
      .fault .outOfRange
    else
      let count := (ncol + 1).toNatClampNeg
      ofColumns nrow ncol (rest.take count) (rest.drop count)
  | _ => .inconsistent (.listTooShort list)

end Tangent.Pattern
