import Tangent.Catalog.Op

/-!
# Dependency masks

A mask is a set of at most 64 seeds. A result depends on whatever one of its operands depends
on, so masks are joined going forward, and the mask of a result is added to the masks of its
operands going backward.
-/

namespace Tangent

abbrev Mask := UInt64

/-- The number of seeds that one mask can hold. -/
def Mask.width : Nat := 64

theorem Mask.toNat_shiftRight_lt {mask : Mask} (h : ¬mask = 0) :
    (mask >>> 1).toNat < mask.toNat := by
  have hpos : mask.toNat ≠ 0 := fun h0 => h (UInt64.toNat_inj.1 h0)
  rw [UInt64.toNat_shiftRight, Nat.shiftRight_eq_div_pow]
  exact Nat.div_lt_self (Nat.pos_of_ne_zero hpos) (by decide)

namespace Op

/-- The mask of a result from the masks of its operands. -/
def joinMasks : Op → Mask → Mask → Mask
  | const, _, _ | symbol, _, _ => 0
  | unary _, x, _ => x
  | binary _, x, y => x ||| y

/-- The masks of the operands once the mask `r` of the result is added to them. -/
def spreadMask : Op → Mask → Mask × Mask → Mask × Mask
  | const, _, xy | symbol, _, xy => xy
  | unary _, r, (x, y) => (x ||| r, y)
  | binary _, r, (x, y) => (x ||| r, y ||| r)

end Op

end Tangent
