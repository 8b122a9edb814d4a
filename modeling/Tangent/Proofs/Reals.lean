import Mathlib
import Tangent.Proofs.DoubleEquality
import Tangent.Proofs.OrderedField

/-!
# The catalog over the real numbers

The operations of the catalog as real functions: those of an ordered field, and the others as
analysis defines them (`curved`). All identities that the simplifier rests on hold
there (`lawful_of_literals`), whether the constants are real numbers themselves or floating point
numbers that stand for real ones (`Numeric.toReal`).
-/

namespace Tangent.Reals

open OrderedField (unary binary binary_comm)

noncomputable section

def erf (x : ℝ) : ℝ :=
  2 / √Real.pi * ∫ t in (0 : ℝ)..x, Real.exp (-t ^ 2)

/-- The constants and operations that an ordered field alone does not have, and products. -/
@[reducible] def curved : Scalar ℝ where
  literal
    | .erfSlope => 2 / √Real.pi
    | .erfinvSlope => √Real.pi / 2
    | _ => 0
  unary
    | .exp, x => Real.exp x
    | .log, x => Real.log x
    | .sqrt, x => √x
    | .sq, x => x * x
    | .sin, x => Real.sin x
    | .cos, x => Real.cos x
    | .tan, x => Real.tan x
    | .asin, x => Real.arcsin x
    | .acos, x => Real.arccos x
    | .atan, x => Real.arctan x
    | .erf, x => erf x
    | .inv, x => x⁻¹
    | .sinh, x => Real.sinh x
    | .cosh, x => Real.cosh x
    | .tanh, x => Real.tanh x
    | .asinh, x => Real.arsinh x
    | .acosh, x => Real.arcosh x
    | .atanh, x => Real.artanh x
    | .erfinv, x => Function.invFun erf x
    | _, _ => 0
  binary
    | .mul, x, y => x * y
    | .pow, x, y | .constpow, x, y => x ^ y
    | .atan2, x, y => Complex.arg ⟨y, x⟩
    | _, _, _ => 0
  identical x y := decide (x = y)
  equals x y := decide (x = y)

instance : Scalar ℝ := OrderedField.arithmetic curved

/-- Errors show every real number in the same way. -/
instance : Numeral ℝ where
  numeral _ := "a real number"

instance : Scalar.Faithful ℝ where
  eq_of_identical h := of_decide_eq_true h
  eq_of_equals h := Or.inl (of_decide_eq_true h)

end

/-! ## The identities -/

/-- Real values obey the identities, as long as the constants that they mention have their real
values. -/
theorem lawful_of_literals {S : Type} [Scalar S] {const : S → ℝ}
    (hzero : ∀ v : S, Scalar.isZero v → const v = 0) (h0 : const (Scalar.literal .zero) = 0)
    (h1 : const (Scalar.literal .one) = 1) (hneg : const (Scalar.literal .negOne) = -1)
    (h2 : const (Scalar.literal .two) = 2) (hhalf : const (Scalar.literal .half) = 1 / 2) :
    (⟨const, unary curved, binary curved⟩ : Model S ℝ).Lawful where
  const_zero v hv := (hzero v hv).trans h0.symm
  comm _ h := binary_comm curved mul_comm h
  add_zero a := by simp [Model.literal, binary, h0]
  add_neg a b := by simp [binary, unary, sub_eq_add_neg]
  sub_add a b := by simp [binary]
  add_halves a h₁ hh₁ h₂ hh₂ := by
    have hhalf : ∀ h ∈ (⟨const, unary curved, binary curved⟩ : Model S ℝ).halves a,
        h = a / 2 := by
      intro h hh
      change h ∈ [const (Scalar.literal .half) * a, a * const (Scalar.literal .half),
        a / const (Scalar.literal .two)] at hh
      simp only [h2, hhalf, List.mem_cons, List.not_mem_nil, or_false] at hh
      rcases hh with rfl | rfl | rfl <;> ring
    rw [hhalf h₁ hh₁, hhalf h₂ hh₂]
    exact add_halves a
  sin_add_cos a := by
    change Real.sin a * Real.sin a + Real.cos a * Real.cos a = const (Scalar.literal .one)
    rw [h1]
    nlinarith [Real.sin_sq_add_cos_sq a]
  sub_zero a := by simp [Model.literal, binary, h0]
  zero_sub a := by simp [Model.literal, binary, unary, h0]
  sub_self a := by simp [Model.literal, binary, h0]
  sub_neg a b := by simp [binary, unary]
  mul_zero a := by
    change a * const (Scalar.literal .zero) = const (Scalar.literal .zero)
    rw [h0, mul_zero]
  mul_one a := (congrArg (a * ·) h1).trans (mul_one a)
  mul_negOne a := (congrArg (a * ·) hneg).trans (mul_neg_one a)
  mul_self a := rfl
  div_one a := by simp [Model.literal, binary, h1]
  neg_neg a := by simp [unary]
  pow_const a v := rfl
  constpow_one a := (congrArg (a ^ ·) h1).trans (Real.rpow_one a)
  fmin_self a := by simp [binary]
  fmax_self a := by simp [binary]

theorem lawful_self : (Model.self ℝ).Lawful := by
  refine lawful_of_literals (fun _ hv => of_decide_eq_true hv) rfl rfl rfl one_add_one_eq_two ?_
  change (1 : ℝ) / (1 + 1) = 1 / 2
  rw [one_add_one_eq_two]

/-! ## Floating point constants -/

open Float.Model UnpackedFloat in
/-- The real number that a floating point number stands for; zero for what is not a number. -/
noncomputable def ofUnpacked : UnpackedFloat → ℝ
  | .finite s m e _ => s.apply m * 2 ^ e
  | _ => 0

/-- Floating point constants in the real numbers. -/
noncomputable def doubles : Model Float ℝ where
  const v := ofUnpacked v.toModel.unpack
  unary := Scalar.unary
  binary := Scalar.binary

theorem lawful_doubles : doubles.Lawful := by
  have hlit : ∀ l u, (Numeric.literal l).toModel.unpack = u →
      ofUnpacked (Scalar.literal l : Float).toModel.unpack = ofUnpacked u :=
    fun l u h => congrArg ofUnpacked h
  refine lawful_of_literals ?_ ?_ ?_ ?_ ?_ ?_
  · intro v hv
    obtain ⟨s, hs⟩ := Numeric.unpack_of_isZero hv
    rw [hs]
    rfl
  · rfl
  · rw [hlit .one (.finite .positive (2 ^ 52) (-52) (by decide)) (by rfl)]
    norm_num [ofUnpacked, Float.Model.UnpackedFloat.Sign.apply]
  · rw [hlit .negOne (.finite .negative (2 ^ 52) (-52) (by decide)) (by rfl)]
    norm_num [ofUnpacked, Float.Model.UnpackedFloat.Sign.apply]
  · rw [hlit .two (.finite .positive (2 ^ 52) (-51) (by decide)) (by rfl)]
    norm_num [ofUnpacked, Float.Model.UnpackedFloat.Sign.apply]
  · rw [hlit .half (.finite .positive (2 ^ 52) (-53) (by decide)) (by rfl)]
    norm_num [ofUnpacked, Float.Model.UnpackedFloat.Sign.apply]

end Tangent.Reals
