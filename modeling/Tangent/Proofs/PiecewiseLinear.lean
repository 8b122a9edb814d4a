import Mathlib
import Tangent.Proofs.OrderedField
import Tangent.Proofs.Slopes

/-!
# Derivative rules of the piecewise linear operations

Sums, comparisons, rounding, minima, remainders and the like are linear between their kinks, and
rational arithmetic (`OrderedField.arithmetic`) computes them exactly. Away from the kinks a rule is
right if, for all small steps, the operation changes by the slope times the step. This is so for all
of them, with one exception (`not_slopesExact_copysign`) : `copysign` depends on its first operand
through the absolute value, and its rule has lost the sign of a negative operand.
-/

namespace Tangent

/-- The unary operations that are linear between their kinks, away from these. -/
def Unary.AwayFromKinks (x : ℚ) : Unary → Prop
  | .assign | .neg | .twice => True
  | .fabs | .sign | .not => x ≠ 0
  | .floor | .ceil => ∀ n : ℤ, x ≠ n
  | _ => False

/-- The binary operations that are linear between their kinks, away from these. -/
def Binary.AwayFromKinks (x y : ℚ) : Binary → Prop
  | .add | .sub | .lift | .printme => True
  | .ifElseZero => x ≠ 0
  | .and | .or | .copysign => x ≠ 0 ∧ y ≠ 0
  | .fmod => y ≠ 0 ∧ ∀ n : ℤ, x / y ≠ n
  | .lt | .le | .eq | .ne | .fmin | .fmax => x ≠ y
  | _ => False

/-- The operations that are linear between their kinks, away from these. -/
def Op.AwayFromKinks (x y : ℚ) : Op → Prop
  | .unary u => u.AwayFromKinks x
  | .binary b => b.AwayFromKinks x y
  | _ => False

namespace Rationals

open Filter Topology OrderedField

/-! ## Lines -/

/-- Near `x` the function is a line with slope `m`. -/
def LinearNear (g : ℚ → ℚ) (x m : ℚ) : Prop :=
  ∃ d > 0, ∀ h, |h| < d → g (x + h) = g x + m * h

namespace LinearNear

variable {g : ℚ → ℚ} {x m m' : ℚ}

/-- It is enough to know the line, wherever it meets the axis. -/
theorem of_eventually (a : ℚ) (hg : ∀ᶠ t in 𝓝 x, g t = a + m * t) : LinearNear g x m := by
  obtain ⟨d, hd, hline⟩ := (nhds_basis_abs_sub_lt x).eventually_iff.1 hg
  refine ⟨d, hd, fun h hh => ?_⟩
  have hthere : g (x + h) = a + m * (x + h) := hline (by simpa using hh)
  have hhere : g x = a + m * x := hg.self_of_nhds
  rw [hthere, hhere]
  ring

theorem of_forall (a : ℚ) (hg : ∀ t, g t = a + m * t) : LinearNear g x m :=
  of_eventually a (.of_forall hg)

theorem of_flat (hg : ∀ᶠ t in 𝓝 x, g t = g x) : LinearNear g x 0 :=
  of_eventually (g x) (hg.mono fun t ht => by rw [ht, zero_mul, add_zero])

theorem unique (h : LinearNear g x m) (h' : LinearNear g x m') : m = m' := by
  obtain ⟨d, hd, hm⟩ := h
  obtain ⟨d', hd', hm'⟩ := h'
  -- a step that is small enough for both
  have hpos : 0 < min d d' / 2 := by positivity
  have hsmall : |min d d' / 2| < min d d' := by
    rw [abs_of_pos hpos]
    linarith
  have heq := (hm _ (hsmall.trans_le (min_le_left d d'))).symm.trans
    (hm' _ (hsmall.trans_le (min_le_right d d')))
  exact mul_right_cancel₀ hpos.ne' (add_left_cancel heq)

end LinearNear

/-! ## Numbers near a number -/

/-- A number near `x` is on the side of `y` on which `x` is. -/
theorem eventually_sameSide {x y : ℚ} (h : x ≠ y) :
    ∀ᶠ t in 𝓝 x, t ≠ y ∧ (t < y ↔ x < y) ∧ (y < t ↔ y < x) := by
  rcases h.lt_or_gt with h | h
  · filter_upwards [gt_mem_nhds h] with t ht
    exact ⟨ht.ne, iff_of_true ht h, iff_of_false ht.not_gt h.not_gt⟩
  · filter_upwards [lt_mem_nhds h] with t ht
    exact ⟨ht.ne', iff_of_false ht.not_gt h.not_gt, iff_of_true ht h⟩

theorem eventually_floor {x : ℚ} (hx : ∀ n : ℤ, x ≠ n) : ∀ᶠ t in 𝓝 x, ⌊t⌋ = ⌊x⌋ := by
  have hlower : (⌊x⌋ : ℚ) < x := (Int.floor_le x).lt_of_ne (hx _).symm
  filter_upwards [lt_mem_nhds hlower, gt_mem_nhds (Int.lt_floor_add_one x)] with t hl hr
  exact Int.floor_eq_iff.2 ⟨hl.le, hr⟩

theorem eventually_ceil {x : ℚ} (hx : ∀ n : ℤ, x ≠ n) : ∀ᶠ t in 𝓝 x, ⌈t⌉ = ⌈x⌉ := by
  have hupper : x < ⌈x⌉ := (Int.le_ceil x).lt_of_ne (hx _)
  have hlower : (⌈x⌉ : ℚ) - 1 < x := by linarith [Int.ceil_lt_add_one x]
  filter_upwards [lt_mem_nhds hlower, gt_mem_nhds hupper] with t hl hr
  exact Int.ceil_eq_iff.2 ⟨hl, hr.le⟩

theorem eventually_truncate {x : ℚ} (hx : ∀ n : ℤ, x ≠ n) :
    ∀ᶠ t in 𝓝 x, truncate t = truncate x := by
  have hzero : x ≠ 0 := by simpa using hx 0
  filter_upwards [eventually_sameSide hzero, eventually_floor hx, eventually_ceil hx]
    with t hside hfloor hceil
  simp only [truncate, ← not_lt, hside.2.1, hfloor, hceil]

/-! ## The rules -/

theorem linearNear_abs {x : ℚ} (hx : x ≠ 0) : LinearNear (fun t => |t|) x (sign x) := by
  refine .of_eventually 0 ((eventually_sameSide hx).mono fun t ht => ?_)
  rcases hx.lt_or_gt with hneg | hpos
  · rw [sign, if_pos hneg, abs_of_neg (ht.2.1.2 hneg)]
    ring
  · rw [sign, if_neg hpos.not_gt, if_pos hpos, abs_of_pos (ht.2.2.2 hpos)]
    ring

/-- The slope of the absolute value, with the copied sign. -/
theorem linearNear_copysign {x : ℚ} (y : ℚ) (hx : x ≠ 0) :
    LinearNear (fun t => copysign t y) x (sign x * copysign 1 y) := by
  obtain ⟨d, hd, habs⟩ := linearNear_abs hx
  refine ⟨d, hd, fun h hh => ?_⟩
  have hstep : |x + h| = |x| + sign x * h := habs h hh
  by_cases hy : y < 0
  · simp only [copysign, if_pos hy, hstep, abs_one]
    ring
  · simp only [copysign, if_neg hy, hstep, abs_one]
    ring

theorem linearNear_min {x y : ℚ} (h : x ≠ y) :
    LinearNear (fun t => min t y) x (indicator (x ≤ y)) := by
  rcases h.lt_or_gt with hlt | hgt
  · refine .of_eventually 0 ((eventually_sameSide h).mono fun t ht => ?_)
    rw [indicator, if_pos hlt.le, min_eq_left (ht.2.1.2 hlt).le]
    ring
  · refine .of_eventually y ((eventually_sameSide h).mono fun t ht => ?_)
    rw [indicator, if_neg hgt.not_ge, min_eq_right (ht.2.2.2 hgt).le]
    ring

theorem linearNear_max {x y : ℚ} (h : x ≠ y) :
    LinearNear (fun t => max t y) x (indicator (y ≤ x)) := by
  rcases h.lt_or_gt with hlt | hgt
  · refine .of_eventually y ((eventually_sameSide h).mono fun t ht => ?_)
    rw [indicator, if_neg hlt.not_ge, max_eq_right (ht.2.1.2 hlt).le]
    ring
  · refine .of_eventually 0 ((eventually_sameSide h).mono fun t ht => ?_)
    rw [indicator, if_pos hgt.le, max_eq_left (ht.2.2.2 hgt).le]
    ring

/-- Of two different numbers one is the smaller. -/
theorem indicator_not_le {x y : ℚ} (h : x ≠ y) :
    indicator ((indicator (x ≤ y) : ℚ) = 0) = (indicator (y ≤ x) : ℚ) := by
  rcases h.lt_or_gt with hlt | hgt
  · simp [indicator, hlt.le, hlt.not_ge]
  · simp [indicator, hgt.le, hgt.not_ge]

section Rules

variable (S : Scalar ℚ) {x y : ℚ}

/-- The rule of a unary operation gives its slope. -/
theorem linearNear_unary {u : Unary} (h : u.AwayFromKinks x) :
    LinearNear (unary S u) x (@Unary.slopeAt ℚ (arithmetic S) u x (unary S u x)) := by
  cases u with
  | assign =>
    change LinearNear (fun t => t) x 1
    exact .of_forall 0 fun t => by ring
  | neg =>
    change LinearNear (fun t => -t) x (-1)
    exact .of_forall 0 fun t => by ring
  | twice =>
    change LinearNear (fun t => t + t) x (1 + 1)
    exact .of_forall 0 fun t => by ring
  | fabs => exact linearNear_abs h
  | sign =>
    refine .of_flat ((eventually_sameSide h).mono fun t ht => ?_)
    simp only [unary, sign, ht.2.1, ht.2.2]
  | not =>
    refine .of_flat ((eventually_sameSide h).mono fun t ht => ?_)
    simp only [unary, ht.1, show x ≠ 0 from h]
  | floor =>
    refine .of_flat ((eventually_floor h).mono fun t ht => ?_)
    simp only [unary, ht]
  | ceil =>
    refine .of_flat ((eventually_ceil h).mono fun t ht => ?_)
    simp only [unary, ht]
  | _ => exact h.elim

/-- The rule of a binary operation gives its slope in the first operand, but for the copied sign of
a negative number. -/
theorem linearNear_left {b : Binary} (h : b.AwayFromKinks x y) (hb : ¬(b = .copysign ∧ x < 0)) :
    LinearNear (fun s => binary S b s y) x
      (@Binary.slopesAt ℚ (arithmetic S) b x y (binary S b x y)).1 := by
  cases b with
  | add =>
    change LinearNear (fun s => s + y) x 1
    exact .of_forall y fun s => by ring
  | sub =>
    change LinearNear (fun s => s - y) x 1
    exact .of_forall (-y) fun s => by ring
  | lift | printme =>
    change LinearNear (fun s => s) x 1
    exact .of_forall 0 fun s => by ring
  | lt | le | eq | ne =>
    have hne : x ≠ y := h
    refine .of_flat ((eventually_sameSide hne).mono fun s hs => ?_)
    simp only [binary, ne_eq, hs.1, hne, hs.1.le_iff_lt, hne.le_iff_lt, hs.2.1]
  | and | or =>
    refine .of_flat ((eventually_ne_nhds h.1).mono fun s hs => ?_)
    simp only [binary, ne_eq, hs, h.1]
  | ifElseZero =>
    have hne : x ≠ 0 := h
    refine .of_flat ((eventually_ne_nhds hne).mono fun s hs => ?_)
    simp only [binary, ne_eq, hs, hne]
  | fmod =>
    change LinearNear (fun s => s - y * truncate (s / y)) x 1
    have hquot : Tendsto (fun s => s / y) (𝓝 x) (𝓝 (x / y)) := tendsto_id.div_const y
    refine .of_eventually (-(y * truncate (x / y))) ?_
    filter_upwards [hquot.eventually (eventually_truncate h.2)] with s hs
    rw [hs]
    ring
  | copysign =>
    have hx : 0 < x := h.1.lt_or_gt.resolve_left fun hneg => hb ⟨rfl, hneg⟩
    have hslope := linearNear_copysign y h.1
    rwa [sign, if_neg hx.not_gt, if_pos hx, one_mul] at hslope
  | fmin => exact linearNear_min h
  | fmax => exact linearNear_max h
  | _ => exact h.elim

/-- The rule of a binary operation gives its slope in the second operand. -/
theorem linearNear_right {b : Binary} (h : b.AwayFromKinks x y) :
    LinearNear (fun t => binary S b x t) y
      (@Binary.slopesAt ℚ (arithmetic S) b x y (binary S b x y)).2 := by
  cases b with
  | add =>
    change LinearNear (fun t => x + t) y 1
    exact .of_forall x fun t => by ring
  | sub =>
    change LinearNear (fun t => x - t) y (-1)
    exact .of_forall x fun t => by ring
  | lift | printme =>
    change LinearNear (fun _ => x) y 0
    exact .of_forall x fun t => by ring
  | lt | le | eq | ne =>
    have hne : y ≠ x := Ne.symm h
    refine .of_flat ((eventually_sameSide hne).mono fun t ht => ?_)
    simp only [binary, ne_eq, ht.1.symm, hne.symm, ht.1.symm.le_iff_lt, hne.symm.le_iff_lt, ht.2.2]
  | and | or =>
    refine .of_flat ((eventually_ne_nhds h.2).mono fun t ht => ?_)
    simp only [binary, ne_eq, ht, h.2]
  | ifElseZero =>
    change LinearNear (fun t => if x ≠ 0 then t else 0) y (if x ≠ 0 then 1 else 0)
    have hne : x ≠ 0 := h
    simp only [if_pos hne]
    exact .of_forall 0 fun t => by ring
  | fmod =>
    change LinearNear (fun t => x - t * truncate (x / t)) y ((x - y * truncate (x / y) - x) / y)
    have hslope : (x - y * truncate (x / y) - x) / y = -truncate (x / y) := by
      have hy : y ≠ 0 := h.1
      field_simp
      ring
    have hquot : Tendsto (fun t => x / t) (𝓝 y) (𝓝 (x / y)) := tendsto_const_nhds.div tendsto_id h.1
    rw [hslope]
    refine .of_eventually x ?_
    filter_upwards [hquot.eventually (eventually_truncate h.2)] with t ht
    rw [ht]
    ring
  | copysign =>
    refine .of_flat ((eventually_sameSide h.2).mono fun t ht => ?_)
    simp only [binary, copysign, ht.2.1]
  | fmin =>
    change LinearNear (fun t => min x t) y (indicator ((indicator (x ≤ y) : ℚ) = 0))
    simp only [indicator_not_le h, min_comm x]
    exact linearNear_min (Ne.symm h)
  | fmax =>
    change LinearNear (fun t => max x t) y (indicator ((indicator (y ≤ x) : ℚ) = 0))
    simp only [indicator_not_le (Ne.symm h), max_comm x]
    exact linearNear_max (Ne.symm h)
  | _ => exact h.elim

/-- Left of zero the rule of `copysign` has the wrong sign. -/
theorem not_linearNear_copysign (hx : x < 0) :
    ¬LinearNear (fun s => copysign s y) x (copysign 1 y) := by
  intro h
  have heq : copysign 1 y = -1 * copysign 1 y := by
    have hslope := h.unique (linearNear_copysign y hx.ne)
    rwa [sign, if_pos hx] at hslope
  by_cases hy : y < 0
  · norm_num [copysign, hy] at heq
  · norm_num [copysign, hy] at heq

end Rules

/-- The operation is defined, and for all small steps of an operand it changes by the slope in that
operand times the step. -/
def SlopesExact (S : Scalar ℚ) (c : Op) (x y : ℚ) : Prop :=
  ∃ f : ℚ → ℚ → ℚ, (∀ s t, @Opcode.eval? ℚ (arithmetic S) c s t = some (f s t)) ∧
    LinearNear (fun s => f s y) x (@Opcode.slopes ℚ (arithmetic S) c x y (f x y)).1 ∧
    LinearNear (fun t => f x t) y (@Opcode.slopes ℚ (arithmetic S) c x y (f x y)).2

theorem slopesExact_unary (S : Scalar ℚ) {u : Unary} {x : ℚ} (y : ℚ) (h : u.AwayFromKinks x) :
    SlopesExact S (.unary u) x y := by
  refine ⟨fun s _ => unary S u s, @Opcode.eval?_unary ℚ (arithmetic S) u, ?_⟩
  rw [@Opcode.slopes_unary ℚ (arithmetic S)]
  exact ⟨linearNear_unary S h, .of_flat (.of_forall fun _ => rfl)⟩

theorem slopesExact_binary (S : Scalar ℚ) {b : Binary} {x y : ℚ} (h : b.AwayFromKinks x y)
    (hb : ¬(b = .copysign ∧ x < 0)) : SlopesExact S (.binary b) x y := by
  refine ⟨binary S b, @Opcode.eval?_binary ℚ (arithmetic S) b, ?_⟩
  rw [@Opcode.slopes_binary ℚ (arithmetic S)]
  exact ⟨linearNear_left S h hb, linearNear_right S h⟩

theorem not_slopesExact_copysign (S : Scalar ℚ) {x : ℚ} (y : ℚ) (hx : x < 0) :
    ¬SlopesExact S (.binary .copysign) x y := by
  rintro ⟨f, hf, hleft, -⟩
  have hfun : f = copysign := by
    funext s t
    have heval := @Opcode.eval?_binary ℚ (arithmetic S) .copysign s t
    exact Option.some.inj ((hf s t).symm.trans heval)
  rw [hfun, @Opcode.slopes_binary ℚ (arithmetic S)] at hleft
  exact not_linearNear_copysign hx hleft

/-- Away from the kinks the slopes are exact, unless a sign is copied to a negative number. -/
theorem slopes_exact_iff (S : Scalar ℚ) {c : Op} {x y : ℚ} (h : c.AwayFromKinks x y) :
    SlopesExact S c x y ↔ ¬(c = .binary .copysign ∧ x < 0) := by
  cases c with
  | unary u => exact iff_of_true (slopesExact_unary S y h) nofun
  | binary b =>
    constructor
    · rintro hexact ⟨hb, hx⟩
      cases hb
      exact not_slopesExact_copysign S y hx hexact
    · intro hb
      exact slopesExact_binary S h fun hc => hb ⟨congrArg Op.binary hc.1, hc.2⟩
  | _ => exact h.elim

/-- No operations but the exact ones : all others give zero. -/
@[reducible] def bare : Scalar ℚ where
  literal _ := 0
  unary _ _ := 0
  binary _ _ _ := 0
  identical x y := decide (x = y)
  equals x y := decide (x = y)

/-- The remainder of a negative number, `-7/2 = -1 * 2 - 3/2`. -/
theorem slopes_exact_iff_fmod :
    (Op.binary .fmod).AwayFromKinks (-7 / 2) 2 ∧ SlopesExact bare (.binary .fmod) (-7 / 2) 2 := by
  have haway : (Op.binary .fmod).AwayFromKinks (-7 / 2) 2 := by
    refine ⟨two_ne_zero, fun n hn => ?_⟩
    have hint : -7 = 4 * n := by
      have hrat : (-7 : ℚ) = 4 * n := by linarith
      exact_mod_cast hrat
    omega
  exact ⟨haway, (slopes_exact_iff bare haway).2 nofun⟩

/-- At `-1` the operation `copysign` falls where its rule says that it rises. -/
theorem copysign_slopes_not_exact :
    (Op.binary .copysign).AwayFromKinks (-1) 1 ∧
      @Opcode.slopes ℚ (arithmetic bare) (Op.binary .copysign) (-1) 1 1 = (1, 0) ∧
      ¬SlopesExact bare (.binary .copysign) (-1) 1 := by
  refine ⟨⟨by norm_num, one_ne_zero⟩, ?_, not_slopesExact_copysign bare 1 (by norm_num)⟩
  rw [@Opcode.slopes_binary ℚ (arithmetic bare)]
  rfl

end Rationals

end Tangent
