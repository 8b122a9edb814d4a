import Std.Data.HashMap

/-!
# Pools of constant arrays

A pool keeps arrays without repetitions and numbers them in the order in which they are added. Two
arrays are the same if they are equally long and their elements have the same bits. Arrays are
sorted into buckets by a hash of their bits, so that only arrays of one bucket are compared; which
hash is used makes no difference to the numbers.
-/

namespace Tangent.CodeModule

/-- What a pool needs to know about its elements. -/
structure PoolKind (α : Type) where
  bits : α → UInt64
  hash : List UInt64 → UInt64

structure Pool (α : Type) where
  kind : PoolKind α
  arrays : List (List α) := []
  /-- The numbers of the arrays with each hash. -/
  buckets : Std.HashMap UInt64 (List Nat) := {}

namespace Pool

variable {α : Type}

/-- The bits of an array. -/
def bitsOf (p : Pool α) (v : List α) : List UInt64 :=
  v.map p.kind.bits

/-- The bucket of an array. -/
def bucketOf (p : Pool α) (v : List α) : UInt64 :=
  p.kind.hash (p.bitsOf v)

/-- The number of an array. -/
def find? (p : Pool α) (v : List α) : Option Nat :=
  (p.buckets.getD (p.bucketOf v) []).find? fun i =>
    (p.arrays[i]?).any fun w => p.bitsOf w == p.bitsOf v

/-- The number of an array, which is added if it is new. -/
def add (p : Pool α) (v : List α) : Nat × Pool α :=
  match p.find? v with
  | some i => (i, p)
  | none =>
    let i := p.arrays.length
    (i, { p with
      arrays := p.arrays ++ [v]
      buckets := p.buckets.insert (p.bucketOf v) (p.buckets.getD (p.bucketOf v) [] ++ [i]) })

end Pool

/-- A hash of a list of words: each word is mixed in and spread by a multiplication. -/
def mixWords (words : List UInt64) : UInt64 :=
  words.foldl (fun h w => (h ^^^ w) * 1099511628211) 14695981039346656037

/-- The bits of doubles. All words that are not a number are told apart, too. -/
def PoolKind.reals : PoolKind UInt64 :=
  { bits := id, hash := mixWords }

def PoolKind.integers : PoolKind Int64 :=
  { bits := Int64.toUInt64, hash := mixWords }

end Tangent.CodeModule
