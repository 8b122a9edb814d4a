import Mathlib
import Tangent.Numeric.Double
import Tangent.Proofs.Model

/-!
# Equality of floating point numbers

Two numbers that are equal as numbers are one number, or both are zero : a number is determined by
its sign, its exponent and its mantissa (`unpack_injective`), and the comparison looks at nothing
else. So the tests of the simplifier tell apart whatever a model may tell apart, up to the sign of
zero (`Scalar.Faithful Float`).
-/

namespace Tangent.Numeric

open Float.Model Float.Model.UnpackedFloat

/-! ## Words -/

variable {b c : BitVec Format.binary64.numBits}

/-- A word is determined by its sign bit, its exponent bits and its mantissa bits. -/
theorem eq_of_fields (hs : Sign.ofBitVec (unpackSign b) = Sign.ofBitVec (unpackSign c))
    (he : unpackExponent b = unpackExponent c) (hm : unpackMantissa b = unpackMantissa c) :
    b = c := by
  have hsign : ∀ v w : BitVec 1, Sign.ofBitVec v = Sign.ofBitVec w → v.toNat = w.toNat := by
    intro v w h
    have hv := v.isLt
    have hw := w.isLt
    unfold Sign.ofBitVec at h
    split_ifs at h with h₁ h₂ h₂
    · rw [h₁, h₂]
    · rw [← BitVec.toNat_inj] at h₁ h₂
      simp only [BitVec.toNat_ofNat] at h₁ h₂
      omega
  have hs := hsign _ _ hs
  have he := congrArg BitVec.toNat he
  have hm := congrArg BitVec.toNat hm
  have hb : b.toNat < 2 ^ 64 := b.isLt
  have hc : c.toNat < 2 ^ 64 := c.isLt
  simp only [unpackSign, unpackExponent, unpackMantissa, BitVec.toNat_cast, BitVec.extractLsb_toNat,
    Nat.shiftRight_eq_div_pow, Nat.reduceAdd, Nat.reduceSub, Nat.reducePow] at hs he hm
  exact BitVec.eq_of_toNat_eq (by omega)

theorem mantissa_lt (b : BitVec Format.binary64.numBits) : (unpackMantissa b).toNat < 2 ^ 52 :=
  BitVec.isLt _

theorem toNat_one_append_mantissa (b : BitVec Format.binary64.numBits) :
    (1#1 ++ unpackMantissa b).toNat = 2 ^ 52 + (unpackMantissa b).toNat := by
  rw [BitVec.toNat_append, ← Nat.shiftLeft_add_eq_or_of_lt (BitVec.isLt _)]
  rfl

/-- Numbers with one sign, exponent and mantissa are one number. -/
theorem unpack_injective {x y : Float.Model} (h : x.unpack = y.unpack) : x = y := by
  obtain ⟨⟨b⟩, hb⟩ := x
  obtain ⟨⟨c⟩, hc⟩ := y
  suffices b = c by
    subst this
    rfl
  simp only [Float.Model.unpack, UnpackedFloat.unpack] at h
  have hblt := mantissa_lt b
  have hclt := mantissa_lt c
  have hbapp := toNat_one_append_mantissa b
  have hcapp := toNat_one_append_mantissa c
  split_ifs at h
  · next he hm he' hm' =>
    exact eq_of_fields (infinity.inj h) (he.trans he'.symm) (hm.trans hm'.symm)
  · next he hm he' hm' => exact (hb.eq_packedNaN he hm).trans (hc.eq_packedNaN he' hm').symm
  · next he hm _ he' hm' =>
    exact eq_of_fields (zero.inj h) (he.trans he'.symm) (hm.trans hm'.symm)
  · next he _ _ he' _ =>
    obtain ⟨hs, hm, -⟩ := finite.inj h
    exact eq_of_fields hs (he.trans he'.symm) (BitVec.eq_of_toNat_eq hm)
  · obtain ⟨-, hm, -⟩ := finite.inj h
    omega
  · obtain ⟨-, hm, -⟩ := finite.inj h
    omega
  · obtain ⟨hs, hm, he⟩ := finite.inj h
    exact eq_of_fields hs (BitVec.eq_of_toNat_eq (by omega)) (BitVec.eq_of_toNat_eq (by omega))

/-! ## Comparison -/

/-- What compares equal has one sign, exponent and mantissa, or is zero. -/
theorem eq_of_compare {x y : UnpackedFloat} (h : x.compare y = some .eq) :
    x = y ∨ (∃ s, x = .zero s) ∧ ∃ s, y = .zero s := by
  have hthen : ∀ {e e' : Int} {m m' : Nat}, ((compare e e').then (compare m m')) = .eq →
      e = e' ∧ m = m' := by
    intro e e' m m' h
    obtain ⟨he, hm⟩ := Ordering.then_eq_eq.1 h
    exact ⟨Std.LawfulEqOrd.eq_of_compare he, Std.LawfulEqOrd.eq_of_compare hm⟩
  unfold UnpackedFloat.compare at h
  split at h
  case h_3 s s' => cases s <;> cases s' <;> simp_all [compare]
  case h_12 => exact Or.inr ⟨⟨_, rfl⟩, ⟨_, rfl⟩⟩
  case h_13 m e _ m' e' _ =>
    obtain ⟨rfl, rfl⟩ := hthen (Ordering.swap_inj.1 (Option.some.inj h))
    exact Or.inl rfl
  case h_16 =>
    obtain ⟨rfl, rfl⟩ := hthen (Option.some.inj h)
    exact Or.inl rfl
  all_goals cases h

/-- Zeros of both signs equal zero. -/
theorem isZero_of_unpack {v : Float} {s : Sign} (h : v.toModel.unpack = .zero s) :
    Scalar.isZero v := by
  have hzero : (literal .zero).toModel.unpack = .zero .positive := by rfl
  change (v.toModel.unpack.compare (literal .zero).toModel.unpack == some .eq) = true
  rw [h, hzero]
  rfl

theorem unpack_of_isZero {v : Float} (h : Scalar.isZero v) : ∃ s, v.toModel.unpack = .zero s := by
  have hzero : (literal .zero).toModel.unpack = .zero .positive := by rfl
  have hcmp : (v.toModel.unpack.compare (literal .zero).toModel.unpack == some .eq) = true := h
  rcases eq_of_compare (eq_of_beq hcmp) with h | ⟨hv, -⟩
  · exact ⟨.positive, h.trans hzero⟩
  · exact hv

instance : Scalar.Faithful Float where
  eq_of_identical {v w} h := by
    obtain ⟨⟨b, hb⟩⟩ := v
    obtain ⟨⟨c, hc⟩⟩ := w
    have hbits : (b == c) = true := h
    obtain rfl := eq_of_beq hbits
    rfl
  eq_of_equals {v w} h := by
    have hcmp : (v.toModel.unpack.compare w.toModel.unpack == some .eq) = true := h
    rcases eq_of_compare (eq_of_beq hcmp) with h | ⟨⟨s, hv⟩, ⟨s', hw⟩⟩
    · exact Or.inl (congrArg Float.ofModel (unpack_injective h))
    · exact Or.inr ⟨isZero_of_unpack hv, isZero_of_unpack hw⟩

end Tangent.Numeric
