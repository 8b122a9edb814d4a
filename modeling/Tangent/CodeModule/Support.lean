import Tangent.Catalog.Op

/-!
# Support routines

Generated code calls a fixed set of support routines. Each has a number, a name, the routines that
it calls itself and the headers that it needs. A routine that others call calls none
(`Support.needs_of_mem_needs`), so that there is no circle of calls.
-/

namespace Tangent.CodeModule

inductive Support
  | copy | swap | scal | axpy | dot | bilin | rank1 | asum | iamax | nrm2 | fill | mtimes | sq
  | sign | project | trans | toMex | fromMex | erfinv | printme | sparsity
deriving DecidableEq

namespace Support

/-- The support routines in the order of their numbers. -/
def all : List Support :=
  [copy, swap, scal, axpy, dot, bilin, rank1, asum, iamax, nrm2, fill, mtimes, sq, sign, project,
    trans, toMex, fromMex, erfinv, printme, sparsity]

def name : Support → String
  | copy => "copy"
  | swap => "swap"
  | scal => "scal"
  | axpy => "axpy"
  | dot => "dot"
  | bilin => "bilin"
  | rank1 => "rank1"
  | asum => "asum"
  | iamax => "iamax"
  | nrm2 => "nrm2"
  | fill => "fill"
  | mtimes => "mtimes"
  | sq => "sq"
  | sign => "sign"
  | project => "project"
  | trans => "trans"
  | toMex => "to_mex"
  | fromMex => "from_mex"
  | erfinv => "erfinv"
  | printme => "printme"
  | sparsity => "sparsity"

/-- The routines that a routine calls. -/
def needs : Support → List Support
  | bilin | rank1 | mtimes | project | trans | toMex => [sparsity]
  | fromMex => [sparsity, fill]
  | _ => []

/-- The headers that a routine includes. -/
def includes : Support → List String
  | printme => ["stdio.h"]
  | _ => []

/-- A routine that is called by another one calls none. -/
theorem needs_of_mem_needs {s t : Support} (h : t ∈ s.needs) : t.needs = [] := by
  cases s <;> simp only [needs, List.mem_cons, List.not_mem_nil, or_false] at h <;>
    grind [needs]

def ofNumber? (n : Int64) : Option Support :=
  if 0 ≤ n then all[n.toNatClampNeg]? else none

/-- The text of a routine given by its number. -/
def textOf (n : Int64) : String :=
  match ofNumber? n with
  | some s => s.name
  | none => "Aux(" ++ toString n ++ ")"

/-- The routine that the text of an operation calls. -/
def ofHelper? : Helper → Option Support
  | .none => Option.none
  | .sq => some sq
  | .sign => some sign
  | .erfinv => some erfinv
  | .printme => some printme

end Support

end Tangent.CodeModule
