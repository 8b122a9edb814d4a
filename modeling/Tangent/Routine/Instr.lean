import Tangent.Catalog.Op
import Tangent.Pattern.Basic

/-!
# Routines

A routine computes outputs from inputs by a list of instructions. It works on scalar slots, on a
work vector of reals and on one of integers, and all three are addressed by machine integers.
Nothing about those numbers is assumed here: `Routine.validate` says which routines are sound.
-/

namespace Tangent

/-- What a vector can be reduced to: the sum of the absolute values, the position of the greatest
of them, and the Euclidean norm. -/
inductive Reduction
  | asum | iamax | nrm2
deriving DecidableEq

inductive Instr (K : Type) where
  /-- Read a nonzero of an input into a slot. -/
  | input (slot arg nonzero : Int64)
  /-- Write a slot to a nonzero of an output. -/
  | output (res nonzero slot : Int64)
  | const (slot : Int64) (value : K)
  /-- Apply an operation to one or two slots. A unary operation ignores `y`. -/
  | apply (op : Opcode) (slot x y : Int64)
  /-- Load an element of the work vector into a slot. -/
  | gather (slot offset : Int64)
  /-- Store a slot in the work vector. -/
  | scatter (offset slot : Int64)
  /-- Copy a constant array into the work vector. -/
  | constArray (offset : Int64) (values : List K)
  /-- Load an element of a constant array that is in use already. -/
  | constElement (slot : Int64) (values : List K) (index : Int64)
  | fill (offset n : Int64) (value : K)
  | copy (source n target : Int64)
  | swap (n x y : Int64)
  /-- Multiply a vector by a slot. -/
  | scale (n alpha x : Int64)
  /-- Add a slot times the vector at `x` to the vector at `y`. -/
  | axpy (n alpha x y : Int64)
  /-- The inner product of two vectors. -/
  | dot (slot n x y : Int64)
  | reduce (kind : Reduction) (slot n x : Int64)
  /-- The product of the vector at `x`, the matrix at `a` and the vector at `y`. -/
  | bilinear (slot a : Int64) (sp : Option SharedPattern) (x y : Int64)
  /-- Add a slot times the product of a column and a row to the matrix at `a`. -/
  | rank1 (a : Int64) (sp : Option SharedPattern) (alpha x y : Int64)
  /-- Copy a matrix into another pattern, with a dense column as temporary. -/
  | project (source : Int64) (spSource : Option SharedPattern)
      (target : Int64) (spTarget : Option SharedPattern) (temporary : Int64)
  /-- Transpose a matrix, with a temporary in the integer work vector. -/
  | transpose (source : Int64) (spSource : Option SharedPattern)
      (target : Int64) (spTarget : Option SharedPattern) (temporary : Int64)
  /-- Add a product of matrices, the first of which may be transposed, to the one at `z`. -/
  | multiply (x : Int64) (spX : Option SharedPattern) (y : Int64) (spY : Option SharedPattern)
      (z : Int64) (spZ : Option SharedPattern) (temporary : Int64) (transposed : Bool)
  /-- Call a function of reals that is defined elsewhere. -/
  | external (slot : Int64) (name : String) (args : List Int64)

structure Routine (K : Type) where
  name : String
  inputs : List (Option SharedPattern)
  outputs : List (Option SharedPattern)
  /-- The number of scalar slots. -/
  scalars : Int64
  /-- The size of the work vector of reals. -/
  work : Int64
  /-- The size of the work vector of integers. -/
  iwork : Int64
  body : List (Instr K)

namespace Routine

variable {K : Type}

/-- The number of nonzeros of some patterns together. -/
def nonzeros (patterns : List (Option SharedPattern)) : Nat :=
  (patterns.map fun sp => sp.elim 0 (·.pattern.nnz)).foldr (· + ·) 0

end Routine

end Tangent
