import Mathlib
import Tangent.Proofs.Reals
import Tangent.Proofs.Slopes

/-!
# Derivative rules of the smooth operations

Over the real numbers the rules of products, powers, roots, exponentials and of the trigonometric
and hyperbolic functions give derivatives in the sense of analysis, at every point inside the
domain of the operation (`Unary.hasDerivAt_of_smoothAt`, `Binary.hasDerivAt_left_of_smoothAt`,
`Binary.hasDerivAt_right_of_smoothAt`). Many rules are written through the value of the operation,
or through a product of two roots; each is compared with the derivative that calculus gives.
-/

namespace Tangent

open Real

/-! ## Derivatives of real functions -/

theorem hasDerivAt_tanh (x : ℝ) : HasDerivAt tanh (1 - tanh x * tanh x) x := by
  have hcosh : cosh x ≠ 0 := (cosh_pos x).ne'
  have hquot := (hasDerivAt_sinh x).div (hasDerivAt_cosh x) hcosh
  have hfun : tanh = sinh / cosh := funext tanh_eq_sinh_div_cosh
  rw [hfun]
  refine hquot.congr_deriv ?_
  rw [Pi.div_apply]
  field_simp

theorem hasDerivAt_artanh {x : ℝ} (h : |x| < 1) : HasDerivAt artanh (1 - x * x)⁻¹ x := by
  obtain ⟨hl, hr⟩ := abs_lt.1 h
  have hnum : 1 + x ≠ 0 := by linarith
  have hden : 1 - x ≠ 0 := by linarith
  have hquot : HasDerivAt (fun t : ℝ => (1 + t) / (1 - t)) (2 / (1 - x) ^ 2) x := by
    refine (((hasDerivAt_id x).const_add 1).div ((hasDerivAt_id x).const_sub 1) hden).congr_deriv ?_
    simp only [id]
    ring
  have hlog := ((hquot.log (div_ne_zero hnum hden)).const_mul (1 / 2))
  -- the two functions agree between `-1` and `1`, which is around `x`
  have hnear : artanh =ᶠ[nhds x] fun t => 1 / 2 * log ((1 + t) / (1 - t)) := by
    filter_upwards [Icc_mem_nhds hl hr] with t ht
    exact artanh_eq_half_log ht
  refine (hlog.congr_of_eventuallyEq hnear).congr_deriv ?_
  have hprod : 1 - x * x = (1 + x) * (1 - x) := by ring
  rw [hprod]
  field_simp

theorem arg_eq_arctan {x y : ℝ} (hy : 0 < y) : Complex.arg ⟨y, x⟩ = arctan (x / y) := by
  have hhalf : |Complex.arg ⟨y, x⟩| < π / 2 := Complex.abs_arg_lt_pi_div_two_iff.2 (.inl hy)
  obtain ⟨hl, hr⟩ := abs_lt.1 hhalf
  rw [← arctan_tan hl hr, Complex.tan_arg]

/-! ## The rules -/

/-- The unary operations with a curved graph and an elementary derivative, inside their domains.
Operations that are linear between their kinks are not among them, nor is the error function. -/
def Unary.SmoothAt (x : ℝ) : Unary → Prop
  | .sq | .exp | .sin | .cos | .atan | .sinh | .cosh | .tanh | .asinh => True
  | .inv => x ≠ 0
  | .sqrt | .log => 0 < x
  | .tan => Real.cos x ≠ 0
  | .asin | .acos | .atanh => |x| < 1
  | .acosh => 1 < x
  | _ => False

/-- The binary operations with a curved graph, inside their domains. -/
def Binary.SmoothAt (x y : ℝ) : Binary → Prop
  | .mul => True
  | .div => y ≠ 0
  | .pow | .constpow => 0 < x
  | .atan2 => 0 < y
  | _ => False

/-- The smooth operations at the points inside their domains. -/
def Op.SmoothAt (x y : ℝ) : Op → Prop
  | .unary u => u.SmoothAt x
  | .binary b => b.SmoothAt x y
  | _ => False

theorem Unary.hasDerivAt_of_smoothAt {u : Unary} {x : ℝ} (h : u.SmoothAt x) :
    HasDerivAt (Scalar.unary u) (u.slopeAt x (Scalar.unary u x)) x := by
  cases u with
  | sq =>
    refine ((hasDerivAt_id x).mul (hasDerivAt_id x)).congr_deriv ?_
    change 1 * x + x * 1 = x + x
    ring
  | exp => exact hasDerivAt_exp x
  | sin => exact hasDerivAt_sin x
  | cos => exact hasDerivAt_cos x
  | sinh => exact hasDerivAt_sinh x
  | cosh => exact hasDerivAt_cosh x
  | tanh => exact hasDerivAt_tanh x
  | atan =>
    refine (hasDerivAt_arctan x).congr_deriv ?_
    change 1 / (1 + x ^ 2) = (1 + x * x)⁻¹
    rw [one_div, pow_two]
  | asinh =>
    refine (hasDerivAt_arsinh x).congr_deriv ?_
    change (√(1 + x ^ 2))⁻¹ = (√(1 + x * x))⁻¹
    rw [pow_two]
  | inv =>
    refine (hasDerivAt_inv h).congr_deriv ?_
    change -(x ^ 2)⁻¹ = -(x⁻¹ * x⁻¹)
    rw [pow_two, mul_inv]
  | sqrt =>
    refine (hasDerivAt_sqrt h.ne').congr_deriv ?_
    change 1 / (2 * √x) = (√x + √x)⁻¹
    rw [one_div, two_mul]
  | log => exact hasDerivAt_log h.ne'
  | tan =>
    refine (hasDerivAt_tan h).congr_deriv ?_
    change 1 / Real.cos x ^ 2 = (Real.cos x * Real.cos x)⁻¹
    rw [one_div, pow_two]
  | asin =>
    obtain ⟨hl, hr⟩ := abs_lt.1 h
    refine (hasDerivAt_arcsin hl.ne' hr.ne).congr_deriv ?_
    change 1 / √(1 - x ^ 2) = (√(1 - x * x))⁻¹
    rw [one_div, pow_two]
  | acos =>
    obtain ⟨hl, hr⟩ := abs_lt.1 h
    refine (hasDerivAt_arccos hl.ne' hr.ne).congr_deriv ?_
    change -(1 / √(1 - x ^ 2)) = -(√(1 - x * x))⁻¹
    rw [one_div, pow_two]
  | atanh => exact hasDerivAt_artanh h
  | acosh =>
    refine (hasDerivAt_arcosh h).congr_deriv ?_
    change (√(x ^ 2 - 1))⁻¹ = (√(x - 1))⁻¹ / √(x + 1)
    have hsplit : x ^ 2 - 1 = (x - 1) * (x + 1) := by ring
    have hpos : 0 ≤ x - 1 := by linarith [show 1 < x from h]
    rw [hsplit, sqrt_mul hpos, mul_inv, div_eq_mul_inv]
  | _ => exact h.elim

theorem Binary.hasDerivAt_left_of_smoothAt {b : Binary} {x y : ℝ} (h : b.SmoothAt x y) :
    HasDerivAt (fun s => Scalar.binary b s y) (b.slopesAt x y (Scalar.binary b x y)).1 x := by
  cases b with
  | mul => exact ((hasDerivAt_id x).mul_const y).congr_deriv (one_mul y)
  | div =>
    refine ((hasDerivAt_id x).div_const y).congr_deriv ?_
    exact one_div y
  | pow => exact hasDerivAt_rpow_const (.inl (ne_of_gt h))
  | constpow => exact hasDerivAt_rpow_const (.inl (ne_of_gt h))
  | atan2 =>
    have hy : y ≠ 0 := ne_of_gt h
    have harctan : (fun s => Scalar.binary .atan2 s y) = fun s : ℝ => arctan (s / y) :=
      funext fun s => arg_eq_arctan h
    rw [harctan]
    refine ((hasDerivAt_id x).div_const y).arctan.congr_deriv ?_
    change 1 / (1 + (x / y) ^ 2) * (1 / y) = y / (x * x + y * y)
    field_simp
    ring
  | _ => exact h.elim

/-- The exponent of a constant power is no variable, so its rule is left out. -/
theorem Binary.hasDerivAt_right_of_smoothAt {b : Binary} {x y : ℝ} (h : b.SmoothAt x y)
    (hb : b ≠ .constpow) :
    HasDerivAt (fun t => Scalar.binary b x t) (b.slopesAt x y (Scalar.binary b x y)).2 y := by
  cases b with
  | mul => exact ((hasDerivAt_id y).const_mul x).congr_deriv (mul_one x)
  | div =>
    refine ((hasDerivAt_inv h).const_mul x).congr_deriv ?_
    change x * -(y ^ 2)⁻¹ = -(x / y) / y
    field_simp
  | pow =>
    refine (hasStrictDerivAt_const_rpow h y).hasDerivAt.congr_deriv ?_
    exact mul_comm _ _
  | constpow => exact absurd rfl hb
  | atan2 =>
    have hy : y ≠ 0 := ne_of_gt h
    have hnear : (fun t => Scalar.binary .atan2 x t) =ᶠ[nhds y] fun t => arctan (x / t) := by
      filter_upwards [lt_mem_nhds h] with t ht
      exact arg_eq_arctan ht
    have hquot : HasDerivAt (fun t => x / t) (x * -(y ^ 2)⁻¹) y := (hasDerivAt_inv hy).const_mul x
    refine (hquot.arctan.congr_of_eventuallyEq hnear).congr_deriv ?_
    change 1 / (1 + (x / y) ^ 2) * (x * -(y ^ 2)⁻¹) = -(x / (x * x + y * y))
    field_simp
    ring
  | _ => exact h.elim

/-- The pair of slopes of a smooth operation is the pair of its partial derivatives, at every point
inside its domain. -/
theorem Op.hasDerivAt_slopes {c : Op} {x y : ℝ} (h : c.SmoothAt x y) :
    ∃ f : ℝ → ℝ → ℝ, (∀ s t, (c : Opcode).eval? s t = some (f s t)) ∧
      HasDerivAt (fun s => f s y) ((c : Opcode).slopes x y (f x y)).1 x ∧
      (c ≠ .binary .constpow →
        HasDerivAt (fun t => f x t) ((c : Opcode).slopes x y (f x y)).2 y) := by
  cases c with
  | unary u =>
    refine ⟨fun s _ => Scalar.unary u s, Opcode.eval?_unary u, ?_⟩
    rw [Opcode.slopes_unary]
    exact ⟨Unary.hasDerivAt_of_smoothAt h, fun _ => hasDerivAt_const y _⟩
  | binary b =>
    refine ⟨Scalar.binary b, Opcode.eval?_binary b, ?_⟩
    rw [Opcode.slopes_binary]
    exact ⟨Binary.hasDerivAt_left_of_smoothAt h,
      fun hc => Binary.hasDerivAt_right_of_smoothAt h fun hb => hc (hb ▸ rfl)⟩
  | _ => exact h.elim

/-- Below the axis, at an angle of `-π / 4`. -/
theorem Op.hasDerivAt_slopes_atan2 :
    (Op.binary .atan2).SmoothAt (-1) 1 ∧
      ∃ f : ℝ → ℝ → ℝ, (∀ s t, (Op.binary .atan2 : Opcode).eval? s t = some (f s t)) ∧
        HasDerivAt (fun s => f s 1) (1 / 2) (-1) ∧ HasDerivAt (fun t => f (-1) t) (1 / 2) 1 := by
  have hsmooth : (Op.binary .atan2).SmoothAt (-1) 1 := one_pos
  obtain ⟨f, hf, hx, hy⟩ := Op.hasDerivAt_slopes hsmooth
  have hslopes : (Op.binary .atan2 : Opcode).slopes (-1) 1 (f (-1) 1) = ((1 / 2 : ℝ), 1 / 2) := by
    rw [Opcode.slopes_binary]
    change ((1 : ℝ) / (-1 * -1 + 1 * 1), -((-1 : ℝ) / (-1 * -1 + 1 * 1))) = _
    norm_num
  refine ⟨hsmooth, f, hf, ?_, ?_⟩
  · simpa only [hslopes] using hx
  · simpa only [hslopes] using hy nofun

end Tangent
