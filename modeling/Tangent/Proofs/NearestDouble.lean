import Mathlib
import Tangent.Decimal.Shortest
import Tangent.Numeric.Binary64

/-!
# The double nearest to a number

A finite double stands for a rational number (`Binary64.value`). A number rounds to a double if no
other double is as near, or if the mantissa is even and the other one is as near (`RoundsTo`).

Two doubles are at least `2^-53` of either one apart (`abs_value_le`): near a power of two, where
the doubles below are twice as dense, they are just that. A decimal with `n` significant digits is
within `10^(1-n) / 2` of the number that it was made from (`abs_toRat_rounded_sub_le`). As `10^16`
is greater than `2^53`, seventeen digits round to the double that they were made from
(`roundsTo_iff`).
-/

namespace Tangent

/-! ## Bits -/

namespace Binary64

variable {bits bits' : UInt64} {negative negative' : Bool} {m m' : Nat} {e e' : Int}

theorem toNat_fraction (bits : UInt64) :
    (bits &&& 0xfffffffffffff).toNat = bits.toNat % 2 ^ 52 := by
  rw [UInt64.toNat_and]
  exact Nat.and_two_pow_sub_one_eq_mod bits.toNat 52

theorem toNat_biased (bits : UInt64) :
    ((bits >>> 52) &&& 0x7ff).toNat = bits.toNat / 2 ^ 52 % 2 ^ 11 := by
  rw [UInt64.toNat_and, UInt64.toNat_shiftRight]
  change bits.toNat >>> 52 &&& (2 ^ 11 - 1) = _
  rw [Nat.and_two_pow_sub_one_eq_mod, Nat.shiftRight_eq_div_pow]

theorem signBit_eq (bits : UInt64) : signBit bits = decide (2 ^ 63 ≤ bits.toNat) := by
  have hlt := bits.toNat_lt
  have hand : (bits &&& 0x8000000000000000).toNat = (bits.toNat.testBit 63).toNat * 2 ^ 63 := by
    rw [UInt64.toNat_and]
    exact Nat.and_two_pow bits.toNat 63
  have hbit : bits.toNat.testBit 63 = decide (2 ^ 63 ≤ bits.toNat) := by
    rw [Nat.testBit_eq_decide_div_mod_eq]
    exact decide_eq_decide.2 (by omega)
  rw [signBit, ← hbit, Bool.eq_iff_iff, bne_iff_ne, ne_eq, ← UInt64.toNat_inj, hand]
  cases bits.toNat.testBit 63 <;> simp

/-- What the bits of a finite double are, in terms of its mantissa and exponent. -/
theorem bits_of_finite (h : ofBits bits = .finite negative m e) :
    negative = decide (2 ^ 63 ≤ bits.toNat) ∧ bits.toNat / 2 ^ 52 % 2 ^ 11 < 2047 ∧
      (bits.toNat / 2 ^ 52 % 2 ^ 11 = 0 ∧ m = bits.toNat % 2 ^ 52 ∧ e = -1074 ∨
        bits.toNat / 2 ^ 52 % 2 ^ 11 ≠ 0 ∧ m = 2 ^ 52 + bits.toNat % 2 ^ 52 ∧
          e = (bits.toNat / 2 ^ 52 % 2 ^ 11 : Nat) - 1075) := by
  have hbiased : bits.toNat / 2 ^ 52 % 2 ^ 11 < 2 ^ 11 := Nat.mod_lt _ (by decide)
  simp only [ofBits, toNat_biased, toNat_fraction, signBit_eq] at h
  split_ifs at h with h1 h2 h3
  · cases h
    exact ⟨rfl, by omega, .inl ⟨h3, rfl, rfl⟩⟩
  · cases h
    exact ⟨rfl, by omega, .inr ⟨h3, rfl, rfl⟩⟩

/-- What the bits of an infinite double are. -/
theorem bits_of_infinite (h : ofBits bits = .infinite negative) :
    negative = decide (2 ^ 63 ≤ bits.toNat) ∧ bits.toNat / 2 ^ 52 % 2 ^ 11 = 2047 ∧
      bits.toNat % 2 ^ 52 = 0 := by
  simp only [ofBits, toNat_biased, toNat_fraction, signBit_eq] at h
  split_ifs at h with h1 h2
  cases h
  exact ⟨rfl, h1, h2⟩

theorem ofBits_eq_nan_iff : ofBits bits = .nan ↔
    bits.toNat / 2 ^ 52 % 2 ^ 11 = 2047 ∧ bits.toNat % 2 ^ 52 ≠ 0 := by
  simp only [ofBits, toNat_biased, toNat_fraction, signBit_eq]
  split_ifs with h1 h2 h3 <;> simp only [false_iff, true_iff] <;> omega

/-- Bits that say the same are the same, unless they are not a number. -/
theorem eq_of_ofBits_eq (h : ofBits bits = ofBits bits') (hnan : ofBits bits ≠ .nan) :
    bits = bits' := by
  have hlt := bits.toNat_lt
  have hlt' := bits'.toNat_lt
  have hsign : ∀ {negative : Bool}, negative = decide (2 ^ 63 ≤ bits.toNat) →
      negative = decide (2 ^ 63 ≤ bits'.toNat) → (2 ^ 63 ≤ bits.toNat ↔ 2 ^ 63 ≤ bits'.toNat) :=
    fun hb hb' => decide_eq_decide.1 (hb.symm.trans hb')
  rw [← UInt64.toNat_inj]
  cases hb : ofBits bits with
  | nan => exact (hnan hb).elim
  | infinite negative =>
    obtain ⟨hs, hbiased, hfraction⟩ := bits_of_infinite hb
    obtain ⟨hs', hbiased', hfraction'⟩ := bits_of_infinite (h.symm.trans hb)
    have := hsign hs hs'
    omega
  | finite negative m e =>
    obtain ⟨hs, -, hfields⟩ := bits_of_finite hb
    obtain ⟨hs', -, hfields'⟩ := bits_of_finite (h.symm.trans hb)
    have := hsign hs hs'
    omega

/-! ## Values -/

/-- The mantissas and exponents of doubles. -/
structure Canonical (m : Nat) (e : Int) : Prop where
  lt : m < 2 ^ 53
  normal : 2 ^ 52 ≤ m ∨ e = -1074
  least : -1074 ≤ e
  greatest : e ≤ 971

theorem canonical_of_finite (h : ofBits bits = .finite negative m e) : Canonical m e := by
  obtain ⟨-, hbiased, hfields⟩ := bits_of_finite h
  have hfraction : bits.toNat % 2 ^ 52 < 2 ^ 52 := Nat.mod_lt _ (by decide)
  constructor <;> omega

/-- A double has `2^53` units of a smaller exponent. -/
theorem Canonical.le_mul_pow {k : Nat} (h : Canonical m (e + k)) (hk : 0 < k) (he : -1074 ≤ e) :
    2 ^ 53 ≤ m * 2 ^ k := by
  have hnormal : 2 ^ 52 ≤ m := h.normal.resolve_right (by omega)
  have hpow : 2 ^ 1 ≤ 2 ^ k := Nat.pow_le_pow_right (by decide) hk
  exact Nat.mul_le_mul hnormal hpow

/-- A number with a sign. -/
def signed (negative : Bool) (q : ℚ) : ℚ :=
  if negative then -q else q

theorem abs_signed_sub (negative : Bool) (p q : ℚ) :
    |signed negative p - signed negative q| = |p - q| := by
  cases negative
  · rfl
  · exact (congrArg abs (neg_sub_neg p q)).trans (abs_sub_comm q p)

/-- The number that a finite double stands for. -/
def value (negative : Bool) (m : Nat) (e : Int) : ℚ :=
  signed negative (m * 2 ^ e)

theorem abs_value (negative : Bool) (m : Nat) (e : Int) : |value negative m e| = m * 2 ^ e := by
  have hpos : (0 : ℚ) ≤ m * 2 ^ e := by positivity
  cases negative
  · exact abs_of_nonneg hpos
  · exact (abs_neg _).trans (abs_of_nonneg hpos)

/-- Two doubles in a common unit. They differ, and the first one is at most `2^53` times their
distance. -/
theorem exists_common_unit (h : Canonical m e) (h' : Canonical m' e')
    (hne : ¬(m = m' ∧ e = e')) : ∃ (u : Int) (a b : Nat),
      (m * 2 ^ e : ℚ) = a * 2 ^ u ∧ (m' * 2 ^ e' : ℚ) = b * 2 ^ u ∧ a ≠ b ∧
        (a + 2 ^ 53 * a ≤ 2 ^ 53 * b ∨ a + 2 ^ 53 * b ≤ 2 ^ 53 * a) := by
  have hscale : ∀ (n k : Nat) (u : Int), (n * 2 ^ (u + k) : ℚ) = (n * 2 ^ k : Nat) * 2 ^ u := by
    intro n k u
    rw [zpow_add₀ two_ne_zero, zpow_natCast]
    push_cast
    ring
  have hlt := h.lt
  rcases le_or_gt e e' with hle | hlt'
  · -- The other one is a multiple of the unit of the first.
    obtain ⟨k, rfl⟩ := Int.le.dest hle
    have hdiffer : m ≠ m' * 2 ^ k := by
      rcases k.eq_zero_or_pos with rfl | hk
      · rw [pow_zero, mul_one]
        exact fun hm => hne ⟨hm, by simp⟩
      · have hlarge := h'.le_mul_pow hk h.least
        omega
    exact ⟨e, m, m' * 2 ^ k, rfl, hscale m' k e, hdiffer, by omega⟩
  · -- The first one is at least `2^53` times the unit of the other one.
    obtain ⟨k, hk⟩ := Int.le.dest hlt'.le
    subst hk
    have hlarge := h.le_mul_pow (by omega) h'.least
    have hlt' := h'.lt
    exact ⟨e', m * 2 ^ k, m', hscale m k e', rfl, by omega, .inr (by omega)⟩

/-- A double is determined by its sign and its value. -/
theorem eq_of_value_eq (h : Canonical m e) (h' : Canonical m' e')
    (hvalue : value negative m e = value negative m' e') : m = m' ∧ e = e' := by
  by_contra hne
  obtain ⟨u, a, b, ha, hb, hdiffer, -⟩ := exists_common_unit h h' hne
  have habs := congrArg abs hvalue
  rw [abs_value, abs_value, ha, hb] at habs
  exact hdiffer (by exact_mod_cast mul_right_cancel₀ (zpow_ne_zero u two_ne_zero) habs)

/-- Two doubles are at least `2^-53` of the first one apart. -/
theorem abs_value_le (h : Canonical m e) (h' : Canonical m' e')
    (hne : value negative m e ≠ value negative' m' e') :
    |value negative m e| ≤ 2 ^ 53 * |value negative m e - value negative' m' e'| := by
  have hpos : (0 : ℚ) ≤ m * 2 ^ e := by positivity
  have hpos' : (0 : ℚ) ≤ m' * 2 ^ e' := by positivity
  have hsame : ¬(m = m' ∧ e = e') → (m * 2 ^ e : ℚ) ≤ 2 ^ 53 * |(m * 2 ^ e : ℚ) - m' * 2 ^ e'| := by
    intro hne
    obtain ⟨u, a, b, ha, hb, -, hab⟩ := exists_common_unit h h' hne
    have hunit : (0 : ℚ) < 2 ^ u := by positivity
    rw [ha, hb, ← sub_mul, abs_mul, abs_of_pos hunit, ← mul_assoc]
    refine mul_le_mul_of_nonneg_right ?_ hunit.le
    rcases hab with hab | hab
    · have hab' : (a + 2 ^ 53 * a : ℚ) ≤ 2 ^ 53 * b := by exact_mod_cast hab
      have := neg_abs_le ((a : ℚ) - b)
      linarith
    · have hab' : (a + 2 ^ 53 * b : ℚ) ≤ 2 ^ 53 * a := by exact_mod_cast hab
      have := le_abs_self ((a : ℚ) - b)
      linarith
  rw [abs_value]
  cases negative <;> cases negative'
  · exact hsame fun heq => hne (by rw [heq.1, heq.2])
  · change _ ≤ 2 ^ 53 * |(m * 2 ^ e : ℚ) - -(m' * 2 ^ e')|
    rw [sub_neg_eq_add, abs_of_nonneg (add_nonneg hpos hpos')]
    linarith
  · change _ ≤ 2 ^ 53 * |-(m * 2 ^ e : ℚ) - m' * 2 ^ e'|
    rw [← neg_add', abs_neg, abs_of_nonneg (add_nonneg hpos hpos')]
    linarith
  · rw [value, value, abs_signed_sub]
    exact hsame fun heq => hne (by rw [heq.1, heq.2])

/-! ## Rounding -/

/-- A number rounds to a double, with the given sign if it is zero: it is not so large that it
rounds to infinity, and every other double is further away, or as far away and the mantissa is even
here. -/
def RoundsTo (negative : Bool) (x : ℚ) (bits : UInt64) : Prop :=
  |x| < 2 ^ 1024 - 2 ^ 970 ∧ ∃ m e, ofBits bits = .finite negative m e ∧
    ∀ bits' negative' m' e', ofBits bits' = .finite negative' m' e' →
      value negative' m' e' ≠ value negative m e →
        |x - value negative m e| < |x - value negative' m' e'| ∨
          |x - value negative m e| = |x - value negative' m' e'| ∧ m % 2 = 0

section Near

variable {x : ℚ}

/-- What is near a double is nearer to it than to any other one. -/
theorem abs_sub_value_lt (h : Canonical m e) (h' : Canonical m' e')
    (hx : |x - value negative m e| ≤ |value negative m e| / (2 * 10 ^ 16))
    (hne : value negative m e ≠ value negative' m' e') :
    |x - value negative m e| < |x - value negative' m' e'| := by
  have hgap := abs_value_le h h' hne
  have hapart : 0 < |value negative m e - value negative' m' e'| := abs_pos.2 (sub_ne_zero.2 hne)
  have htriangle : |value negative m e - value negative' m' e'| ≤
      |x - value negative m e| + |x - value negative' m' e'| := by
    rw [abs_sub_comm x (value negative m e)]
    exact abs_sub_le _ x _
  linarith

theorem abs_lt_of_near (h : Canonical m e)
    (hx : |x - value negative m e| ≤ |value negative m e| / (2 * 10 ^ 16)) :
    |x| < 2 ^ 1024 - 2 ^ 970 := by
  have hm : (m : ℚ) ≤ 2 ^ 53 - 1 := by
    have hlt : (m + 1 : ℚ) ≤ 2 ^ 53 := by exact_mod_cast Nat.succ_le_of_lt h.lt
    linarith
  have he : (2 : ℚ) ^ e ≤ 2 * 2 ^ 970 := by
    rw [← pow_succ', ← zpow_natCast]
    exact zpow_le_zpow_right₀ one_le_two h.greatest
  have hvalue : |value negative m e| ≤ (2 ^ 53 - 1) * (2 * 2 ^ 970) := by
    rw [abs_value]
    exact mul_le_mul hm he (by positivity) (by norm_num)
  have htriangle : |x| ≤ |x - value negative m e| + |value negative m e| := by
    simpa using abs_add_le (x - value negative m e) (value negative m e)
  have hlimit : (2 : ℚ) ^ 1024 = 2 ^ 54 * 2 ^ 970 := pow_add 2 54 970
  have hunit : (0 : ℚ) < 2 ^ 970 := by positivity
  rw [hlimit]
  generalize (2 : ℚ) ^ 970 = unit at hvalue hunit ⊢
  linarith only [hx, htriangle, hvalue, hunit]

/-- What is near a double rounds to it and to nothing else. -/
theorem roundsTo_iff (h : ofBits bits = .finite negative m e)
    (hx : |x - value negative m e| ≤ |value negative m e| / (2 * 10 ^ 16)) :
    RoundsTo negative x bits' ↔ bits' = bits := by
  have hcanonical := canonical_of_finite h
  constructor
  · rintro ⟨-, m', e', h', hnearest⟩
    have hcanonical' := canonical_of_finite h'
    by_cases hvalue : value negative m e = value negative m' e'
    · obtain ⟨rfl, rfl⟩ := eq_of_value_eq hcanonical hcanonical' hvalue
      exact eq_of_ofBits_eq (h'.trans h.symm) (by rw [h']; exact Binary64.noConfusion)
    · have hnearer := abs_sub_value_lt hcanonical hcanonical' hx hvalue
      rcases hnearest bits negative m e h hvalue with hlt | ⟨heq, -⟩
      · exact (lt_asymm hnearer hlt).elim
      · exact (hnearer.ne' heq).elim
  · rintro rfl
    refine ⟨abs_lt_of_near hcanonical hx, m, e, h, fun bits' negative' m' e' h' hne => .inl ?_⟩
    exact abs_sub_value_lt hcanonical (canonical_of_finite h') hx hne.symm

end Near

end Binary64

/-! ## Digits -/

namespace Decimal

/-- The number that a decimal stands for. -/
def toRat (d : Decimal) : ℚ :=
  d.significand * 10 ^ d.scale

theorem pow_toNat_div {b : ℚ} (hb : b ≠ 0) (s : Int) : b ^ s.toNat / b ^ (-s).toNat = b ^ s := by
  rw [← zpow_natCast, ← zpow_natCast, ← zpow_sub₀ hb]
  congr 1
  omega

theorem log10_bounds (n : Nat) : (0 < n → 10 ^ log10 n ≤ n) ∧ n < 10 ^ (log10 n + 1) := by
  induction n using log10.induct with
  | case1 n h =>
    rw [log10, dif_pos h]
    exact ⟨fun h0 => h0, h⟩
  | case2 n h ih =>
    rw [log10, dif_neg h]
    have hpow := ih.1 (by omega)
    have hpow' := ih.2
    rw [pow_succ] at hpow' ⊢
    rw [pow_succ]
    omega

/-- The first digit stands for a power of ten that is not greater than the number. -/
theorem zpow_exponent10_le {num den : Nat} (hnum : 0 < num) (hden : 0 < den) :
    (10 : ℚ) ^ exponent10 num den ≤ num / den := by
  have hden' : (0 : ℚ) < den := by exact_mod_cast hden
  rw [exponent10, le_div_iff₀ hden']
  split
  · next hle =>
    have hpow := (log10_bounds (num / den)).1 (Nat.div_pos hle hden)
    have hmul := (Nat.le_div_iff_mul_le hden).1 hpow
    rw [Int.ofNat_eq_natCast, zpow_natCast]
    exact_mod_cast hmul
  · next hlt =>
    have hpow := (log10_bounds ((den - 1) / num)).2
    have hmul := (Nat.div_lt_iff_lt_mul hnum).1 hpow
    have hle : (den : ℚ) ≤ num * 10 ^ (log10 ((den - 1) / num) + 1) := by
      rw [Nat.mul_comm] at hmul
      exact_mod_cast (show den ≤ _ by omega)
    rw [Int.ofNat_eq_natCast, ← Nat.cast_succ, zpow_neg, zpow_natCast,
      inv_mul_le_iff₀ (by positivity), mul_comm]
    exact hle

theorem abs_roundDiv_sub_le {num den : Nat} (hden : 0 < den) :
    |(roundDiv num den : ℚ) - num / den| ≤ 1 / 2 := by
  have hden' : (0 : ℚ) < den := by exact_mod_cast hden
  have hdivision : den * (num / den) + num % den = num := Nat.div_add_mod num den
  have hr : num % den < den := Nat.mod_lt num hden
  have hround : 2 * num ≤ 2 * (den * roundDiv num den) + den ∧
      2 * (den * roundDiv num den) ≤ 2 * num + den := by
    unfold roundDiv
    dsimp only
    split_ifs <;> (try rw [Nat.mul_add]) <;> omega
  have hround1 : (2 * num : ℚ) ≤ 2 * (den * roundDiv num den) + den := by exact_mod_cast hround.1
  have hround2 : (2 * (den * roundDiv num den) : ℚ) ≤ 2 * num + den := by exact_mod_cast hround.2
  rw [abs_le, neg_le_sub_iff_le_add, sub_le_iff_le_add', div_le_iff₀ hden', ← sub_le_iff_le_add,
    le_div_iff₀ hden']
  constructor <;> linarith

theorem inUnits_div (num den : Nat) (scale : Int) :
    ((inUnits num den scale).1 : ℚ) / (inUnits num den scale).2 = num / den / 10 ^ scale := by
  rw [← pow_toNat_div (by norm_num) scale]
  simp only [inUnits, Nat.pow_eq]
  push_cast
  field_simp

theorem toRat_rounded {n num den : Nat} (hn : 0 < n) {scale : Int}
    (hscale : scale = exponent10 num den - (Int.ofNat n - 1)) : (rounded n num den).toRat =
      (roundDiv (inUnits num den scale).1 (inUnits num den scale).2 : ℚ) * 10 ^ scale := by
  unfold rounded
  dsimp only
  rw [← hscale]
  split
  · next hcarry =>
    -- One digit more: the same number with a larger unit.
    obtain ⟨k, rfl⟩ := Nat.exists_eq_add_of_lt hn
    rw [hcarry, toRat, zpow_add_one₀ (by norm_num)]
    simp only [Nat.pow_eq, Nat.zero_add, Nat.add_sub_cancel, pow_succ]
    push_cast
    ring
  · rfl

/-- Digits that are rounded are at most half a unit of the last one off. -/
theorem abs_toRat_rounded_sub_le {n num den : Nat} (hn : 0 < n) (hnum : 0 < num) (hden : 0 < den) :
    |(rounded n num den).toRat - num / den| ≤ num / den / (2 * 10 ^ (n - 1)) := by
  obtain ⟨scale, hscale⟩ : ∃ scale, scale = exponent10 num den - (Int.ofNat n - 1) := ⟨_, rfl⟩
  have hunit : (0 : ℚ) < 10 ^ scale := by positivity
  have hround : |(roundDiv (inUnits num den scale).1 (inUnits num den scale).2 : ℚ) -
      num / den / 10 ^ scale| ≤ 1 / 2 := by
    rw [← inUnits_div]
    exact abs_roundDiv_sub_le (Nat.mul_pos hden (Nat.pow_pos (by decide)))
  have hfirst : (10 : ℚ) ^ scale * 10 ^ (n - 1) ≤ num / den := by
    rw [← zpow_natCast, ← zpow_add₀ (by norm_num)]
    convert zpow_exponent10_le hnum hden using 2
    rw [hscale, Int.ofNat_eq_natCast]
    omega
  calc |(rounded n num den).toRat - num / den|
      = |(roundDiv (inUnits num den scale).1 (inUnits num den scale).2 : ℚ) -
          num / den / 10 ^ scale| * 10 ^ scale := by
        rw [toRat_rounded hn hscale, ← abs_of_pos hunit, ← abs_mul, abs_of_pos hunit, sub_mul,
          div_mul_cancel₀ _ hunit.ne']
    _ ≤ 1 / 2 * 10 ^ scale := mul_le_mul_of_nonneg_right hround hunit.le
    _ ≤ num / den / (2 * 10 ^ (n - 1)) := by
        rw [le_div_iff₀ (by positivity)]
        linarith

theorem quotient_div (m : Nat) (e : Int) :
    ((quotient m e).1 : ℚ) / (quotient m e).2 = m * 2 ^ e := by
  rw [← pow_toNat_div two_ne_zero e]
  simp only [quotient, Nat.pow_eq]
  push_cast
  rw [mul_div_assoc]

end Decimal

end Tangent
