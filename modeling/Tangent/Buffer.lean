import Tangent.Error.Basic

/-!
# Buffers

Arrays that are filled place by place. Places are machine integers, and to read or to write outside
of a buffer is a fault.
-/

namespace Tangent.Buffer

variable {α : Type}

/-- The buffer has a place with this number. -/
def has (a : Array α) (i : Int64) : Bool :=
  0 ≤ i && i.toNatClampNeg < a.size

def read (a : Array α) (i : Int64) : Result α :=
  match has a i, a[i.toNatClampNeg]? with
  | true, some x => .ok x
  | _, _ => .fault .outOfRange

def write (a : Array α) (i : Int64) (x : α) : Result (Array α) :=
  if has a i then .ok (a.setIfInBounds i.toNatClampNeg x) else .fault .outOfRange

/-- Count up the number at a place. -/
def countUp (a : Array Int64) (i : Int64) : Result (Array Int64) := do
  write a i ((← read a i) + 1)

end Tangent.Buffer
