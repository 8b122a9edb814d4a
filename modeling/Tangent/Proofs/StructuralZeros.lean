import Mathlib
import Tangent.Decimal.Text
import Tangent.Proofs.Always
import Tangent.Proofs.Constancy
import Tangent.Proofs.DoubleEquality
import Tangent.Proofs.Noninterference
import Tangent.Proofs.Seeding

/-!
# Structural zeros of a Jacobian

Where the pattern of a Jacobian has no cell, the derivative is zero. Backward derivatives are then
the constant zero, because an adjoint is only ever passed on from a node to what it needs
(`Tape.Reached`). Forward derivatives carry a zero tangent through every operation, and constants
are folded before zeros are looked for : a zero times a constant derivative that is no finite number
is not zero. Such derivatives have a product with a constant that is no finite number, and a
quotient by a constant without a finite inverse (`Node.singular`), and no other operation has them
(`Heap.ensures_slope_finite`, `Heap.ensures_slopes_singular`). So a forward derivative is the
constant zero unless the output needs such a node, and at the first such node it is the constant
that is no number (`Node.Fades`).
-/

set_option linter.unusedSectionVars false

namespace Tangent

/-! ## Zeros among floating point numbers -/

namespace Numeric

open Float.Model Float.Model.UnpackedFloat

variable {v w : Float}

theorem isZero_of_pack {s : Sign} (h : v.toModel = Float.Model.pack (.zero s)) :
    Scalar.isZero v := by
  refine isZero_of_unpack (s := s) ?_
  rw [h]
  cases s <;> rfl

theorem isNaN_of_pack (h : v.toModel = Float.Model.pack .notANumber) : v.isNaN := by
  have hnan : v.toModel.unpack = .notANumber := by
    rw [h]
    rfl
  change v.toModel.unpack.isNaN = true
  rw [hnan]
  rfl

theorem unpack_of_isNaN (h : v.isNaN) : v.toModel.unpack = .notANumber := by
  have h : v.toModel.unpack.isNaN = true := h
  cases hv : v.toModel.unpack with
  | notANumber => rfl
  | _ =>
    rw [hv] at h
    cases h

theorem not_isZero_of_isNaN (h : v.isNaN) : ¬Scalar.isZero v := by
  intro hzero
  obtain ⟨s, hs⟩ := unpack_of_isZero hzero
  rw [unpack_of_isNaN h] at hs
  cases hs

theorem toModel_mul (v w : Float) : (v * w).toModel =
    Float.Model.pack (UnpackedFloat.mul Format.binary64 v.toModel.unpack w.toModel.unpack) :=
  rfl

theorem toModel_add (v w : Float) : (v + w).toModel =
    Float.Model.pack (UnpackedFloat.add Format.binary64 v.toModel.unpack w.toModel.unpack) :=
  rfl

/-- A finite number times zero is zero. -/
theorem isZero_mul (hv : v.isFinite) (hw : Scalar.isZero w) : Scalar.isZero (v * w) := by
  obtain ⟨s, hs⟩ := unpack_of_isZero hw
  have hv : v.toModel.unpack.isFinite = true := hv
  cases hu : v.toModel.unpack with
  | zero s' | finite s' m e h =>
    exact isZero_of_pack (s := s' * s) (by rw [toModel_mul, hu, hs]; rfl)
  | _ =>
    rw [hu] at hv
    cases hv

/-- Any other number times zero is no number. -/
theorem isNaN_mul (hv : v.isFinite = false) (hw : Scalar.isZero w) : (v * w).isNaN := by
  obtain ⟨s, hs⟩ := unpack_of_isZero hw
  have hv : v.toModel.unpack.isFinite = false := hv
  cases hu : v.toModel.unpack with
  | infinity s' => exact isNaN_of_pack (by rw [toModel_mul, hu, hs]; rfl)
  | notANumber => exact isNaN_of_pack (by rw [toModel_mul, hu, hs]; rfl)
  | _ =>
    rw [hu] at hv
    cases hv

theorem isZero_add (hv : Scalar.isZero v) (hw : Scalar.isZero w) : Scalar.isZero (v + w) := by
  obtain ⟨s, hs⟩ := unpack_of_isZero hv
  obtain ⟨s', hs'⟩ := unpack_of_isZero hw
  have hadd := toModel_add v w
  rw [hs, hs'] at hadd
  cases s <;> cases s' <;> exact isZero_of_pack hadd

theorem isNaN_add_left (hv : v.isNaN) : (v + w).isNaN :=
  isNaN_of_pack (by rw [toModel_add, unpack_of_isNaN hv]; rfl)

theorem isNaN_add_right (hw : w.isNaN) : (v + w).isNaN := by
  refine isNaN_of_pack ?_
  rw [toModel_add, unpack_of_isNaN hw]
  cases v.toModel.unpack <;> rfl

theorem isFinite_withSign_one (w : Float) : (withSign 1 w).isFinite := by
  -- Only the sign bit is taken over, so there are two cases.
  have hbit : w.toBits &&& 0x8000000000000000 = 0 ∨
      w.toBits &&& 0x8000000000000000 = 0x8000000000000000 := by
    have hand := BitVec.and_twoPow w.toBits.toBitVec 63
    rw [← UInt64.toBitVec_inj, ← UInt64.toBitVec_inj, UInt64.toBitVec_and]
    change w.toBits.toBitVec &&& BitVec.twoPow 64 63 = 0 ∨
      w.toBits.toBitVec &&& BitVec.twoPow 64 63 = BitVec.twoPow 64 63
    rw [hand]
    split_ifs
    · exact Or.inr rfl
    · exact Or.inl rfl
  rw [withSign]
  rcases hbit with h | h <;> rw [h] <;> decide

end Numeric

/-! ## Singular nodes -/

namespace Node

/-- A constant that is no finite number. -/
def isNonfinite (n : Node Float) : Bool :=
  n.value?.any fun v => !v.isFinite

/-- The constant that is no number. -/
def isNaN (n : Node Float) : Bool :=
  n.value?.any Float.isNaN

/-- A node with a partial derivative that is a constant, but no finite number. -/
def singular : Node Float → Bool
  | .binary _ .mul x y => x.isNonfinite || y.isNonfinite
  | .binary _ .div _ y => y.value?.any fun v => !(Scalar.unary .inv v).isFinite
  | _ => false

/-- The node needs no singular node. -/
def Regular (n : Node Float) : Prop :=
  ∀ m, n.Reaches m → m.singular = false

theorem Regular.operand {n x : Node Float} (h : n.Regular) (hx : x ∈ n.operands) : x.Regular :=
  fun m hm => h m (.head hx hm)

theorem Regular.of_operands {n : Node Float} (hn : n.singular = false)
    (h : ∀ x ∈ n.operands, x.Regular) : n.Regular := by
  intro m hm
  rcases reaches_iff.1 hm with rfl | ⟨x, hx, hm⟩
  · exact hn
  · exact h x hx m hm

theorem isNaN_iff {n : Node Float} : n.isNaN ↔ ∃ v, n.value? = some v ∧ v.isNaN := by
  cases h : n.value? <;> simp [isNaN, h]

theorem isNonfinite_of_value?_eq_none {n : Node Float} (h : n.value? = none) :
    n.isNonfinite = false := by
  simp [isNonfinite, h]

theorem isNonfinite_of_value? {n : Node Float} {v : Float} (h : n.value? = some v) :
    n.isNonfinite = !v.isFinite := by
  simp [isNonfinite, h]

theorem not_isZero_of_isNaN {n : Node Float} (h : n.isNaN) : ¬n.isZero := by
  obtain ⟨v, hv, hnan⟩ := isNaN_iff.1 h
  intro hzero
  obtain ⟨w, hw, hw0⟩ := isZero_iff.1 hzero
  obtain rfl := Option.some.inj (hv.symm.trans hw)
  exact Numeric.not_isZero_of_isNaN hnan hw0

end Node

/-- A node of the kind is no constant, or a finite one. -/
def Kind.isFinite : Kind → Bool
  | .literal l => (Scalar.literal l : Float).isFinite
  | .expr | .exprOrZero => true
  | _ => false

theorem Node.Is.isNonfinite {n : Node Float} {k : Kind} (h : n.Is k) (hk : k.isFinite) :
    n.isNonfinite = false := by
  cases k with
  | literal l => exact (isNonfinite_of_value? h).trans (by simpa [Kind.isFinite] using hk)
  | expr => exact isNonfinite_of_value?_eq_none h
  | exprOrZero =>
    rcases h with h | h
    · exact isNonfinite_of_value?_eq_none h
    · exact (isNonfinite_of_value? h).trans (by decide)
  | _ => cases hk

theorem Node.exists_is (n : Node Float) :
    ∃ k, (k = .const ∨ k = .expr) ∧ n.Is k ∧ (n.value? = none → k = .expr) := by
  by_cases h : n.value? = none
  · exact ⟨.expr, Or.inr rfl, h, fun _ => rfl⟩
  · exact ⟨.const, Or.inl rfl, h, fun hn => absurd hn h⟩

namespace Heap

variable {p : Heap Float} (b : Builder) {i : Nat} {x y : Node Float}

/-! ## Derivatives that are finite -/

/-- The derivative of a unary operation is no constant, or a finite one. -/
theorem ensures_slope_finite (u : Unary) (hn : .unary i u x ∈ p) :
    p.Ensures (u.slope (b.algebra Float) x (.unary i u x)) fun q d =>
      d ∈ q ∧ d.isNonfinite = false := by
  have hx : x.Is .expr := fold?_unary_eq_none.1 (p.unfolded hn)
  have hf : (Node.unary i u x).Is .expr := rfl
  have hkind : (u.slope (m := Id) Kind.algebra .expr .expr).isFinite := by
    cases u <;> decide
  exact (ensures_slope_is b u (mem_of_unary hn) hn hx hf).imp fun q d _ hd =>
    ⟨hd.1, hd.2.isNonfinite hkind⟩

/-- The operations whose derivatives are finite by their kinds alone. -/
theorem isFinite_slopes {op : Binary} (hop : op ∉ [.mul, .div, .copysign, .ifElseZero, .fmod])
    {k l : Kind} (hk : k = .const ∨ k = .expr) (hl : l = .const ∨ l = .expr)
    (hkl : op = .printme ∨ k = .expr ∨ l = .expr) :
    (op.slopes (m := Id) Kind.algebra k l .expr).1.isFinite ∧
      (op.slopes (m := Id) Kind.algebra k l .expr).2.isFinite := by
  rcases hk with rfl | rfl <;> rcases hl with rfl | rfl <;> revert hkl hop <;> cases op <;> decide

/-- Two derivatives of which neither is a constant that is no finite number. -/
structure FiniteSlopes (p : Heap Float) (d : Node Float × Node Float) : Prop where
  left_mem : d.1 ∈ p
  right_mem : d.2 ∈ p
  left : d.1.isNonfinite = false
  right : d.2.isNonfinite = false

/-- The first derivative of a quotient is the inverse of the divisor, and the second no constant. -/
theorem ensures_slopes_div (hn : .binary i .div x y ∈ p) :
    p.Ensures (Binary.slopes (b.algebra Float) .div x y (.binary i .div x y)) fun q d =>
      (d.1 ∈ q ∧ d.2 ∈ q) ∧ d.1.value? = y.value?.map (Scalar.unary .inv) ∧ d.2.value? = none := by
  refine (ensures_unary_value? b .inv (mem_right hn)).bind fun q dx hpq hdx => ?_
  refine (ensures_unary_value? b .neg (mem_of_le hpq hn)).bind fun r m hqr hm => ?_
  have hpr := le_trans hpq hqr
  refine (ensures_binary_value? b .div (by decide) hm.1
    (mem_of_le hpr (mem_right hn))).bind fun s dy hrs hdy => .pure ?_
  refine ⟨⟨mem_of_le (le_trans hqr hrs) hdx.1, hdy.1⟩, hdx.2, hdy.2.trans ?_⟩
  rw [hm.2]
  rfl

/-- The first derivative of a magnitude with a sign is the sign. -/
theorem ensures_slopes_copysign (hn : .binary i .copysign x y ∈ p) :
    p.Ensures (Binary.slopes (b.algebra Float) .copysign x y (.binary i .copysign x y)) fun q d =>
      q.FiniteSlopes d := by
  refine (ensures_newConst (Scalar.literal .one)).bind fun q one hpq hone => ?_
  refine (ensures_binary_value? b .copysign (by decide) hone.1
    (mem_of_le hpq (mem_right hn))).bind fun r dx hqr hdx => ?_
  refine (ensures_newConst (Scalar.literal .zero)).bind fun s dy hrs hdy => .pure ?_
  refine ⟨mem_of_le hrs hdx.1, hdy.1, ?_, (Node.isNonfinite_of_value? hdy.2).trans (by decide)⟩
  rw [hone.2] at hdx
  cases hv : y.value? with
  | none => exact Node.isNonfinite_of_value?_eq_none (hdx.2.trans (by rw [hv]; rfl))
  | some v =>
    have hvalue : dx.value? = some (Numeric.withSign 1 v) := hdx.2.trans (by rw [hv]; rfl)
    rw [Node.isNonfinite_of_value? hvalue, Numeric.isFinite_withSign_one]
    rfl

/-- The second derivative of a conditional value is one or zero. -/
theorem ensures_slopes_ifElseZero (hn : .binary i .ifElseZero x y ∈ p) :
    p.Ensures (Binary.slopes (b.algebra Float) .ifElseZero x y (.binary i .ifElseZero x y))
      fun q d => q.FiniteSlopes d := by
  refine (ensures_newConst (Scalar.literal .zero)).bind fun q dx hpq hdx => ?_
  refine (ensures_newConst (Scalar.literal .one)).bind fun r one hqr hone => ?_
  refine (ensures_binary_value? b .ifElseZero (by decide)
    (mem_of_le (le_trans hpq hqr) (mem_left hn)) hone.1).bind fun s dy hrs hdy => .pure ?_
  refine ⟨mem_of_le (le_trans hqr hrs) hdx.1, hdy.1,
    (Node.isNonfinite_of_value? hdx.2).trans (by decide), ?_⟩
  rw [hone.2] at hdy
  cases hv : x.value? with
  | none => exact Node.isNonfinite_of_value?_eq_none (hdy.2.trans (by rw [hv]; rfl))
  | some v =>
    have hvalue : dy.value? = some (if v != 0 then 1 else 0) := hdy.2.trans (by rw [hv]; rfl)
    rw [Node.isNonfinite_of_value? hvalue]
    split_ifs <;> decide

/-- The second derivative of a remainder is no constant. -/
theorem ensures_slopes_fmod (hn : .binary i .fmod x y ∈ p) :
    p.Ensures (Binary.slopes (b.algebra Float) .fmod x y (.binary i .fmod x y)) fun q d =>
      q.FiniteSlopes d := by
  refine (ensures_newConst (Scalar.literal .one)).bind fun q dx hpq hdx => ?_
  have hops : ∀ z ∈ (Form.binary .sub (.binary i .fmod x y) x).operands, z ∈ q :=
    Form.forall_operands_binary.2 ⟨mem_of_le hpq hn, mem_of_le hpq (mem_left hn)⟩
  -- What is divided by the divisor, which may be a constant, is never a constant itself.
  have hgap : (b.settle (.binary .sub (.binary i .fmod x y) x)).value? = none := by
    by_cases hx : x.value? = none
    · exact value?_settle_gap hn hx
    · exact value?_settle_of_unfixed hops ⟨fun _ => hx, fun _ => rfl⟩
  refine (ensures_make_value? b hops).bind fun r m hqr hm => ?_
  refine (ensures_binary_value? b .div (by decide) hm.1
    (mem_of_le (le_trans hpq hqr) (mem_right hn))).bind fun s dy hrs hdy => .pure ?_
  refine ⟨mem_of_le (le_trans hqr hrs) hdx.1, hdy.1,
    (Node.isNonfinite_of_value? hdx.2).trans (by decide),
    Node.isNonfinite_of_value?_eq_none (hdy.2.trans ?_)⟩
  rw [hm.2, hgap]
  rfl

/-- Other operations have derivatives that are finite by their kinds. -/
theorem ensures_slopes_finite {op : Binary}
    (hop : op ∉ [.mul, .div, .copysign, .ifElseZero, .fmod]) (hn : .binary i op x y ∈ p) :
    p.Ensures (op.slopes (b.algebra Float) x y (.binary i op x y)) fun q d =>
      q.FiniteSlopes d := by
  obtain ⟨k, hk, hxk, hxk'⟩ := x.exists_is
  obtain ⟨l, hl, hyl, hyl'⟩ := y.exists_is
  have hkl : op = .printme ∨ k = .expr ∨ l = .expr := by
    by_cases hprint : op = .printme
    · exact Or.inl hprint
    · exact Or.inr (((fold?_binary_eq_none hprint).1 (p.unfolded hn)).imp hxk' hyl')
  obtain ⟨hfst, hsnd⟩ := isFinite_slopes hop hk hl hkl
  have hf : (Node.binary i op x y).Is .expr := rfl
  exact (ensures_slopes_is b op (mem_left hn) (mem_right hn) hn hxk hyl hf).imp fun q d _ hd =>
    ⟨hd.1.1, hd.1.2, hd.2.1.isNonfinite hfst, hd.2.2.isNonfinite hsnd⟩

/-- Two derivatives of a node, of which one is a constant that is no finite number if the node is
singular, and none otherwise. -/
structure SingularSlopes (p : Heap Float) (n : Node Float) (d : Node Float × Node Float) :
    Prop where
  left_mem : d.1 ∈ p
  right_mem : d.2 ∈ p
  singular : n.singular = (d.1.isNonfinite || d.2.isNonfinite)
  single : (d.1.isNonfinite && d.2.isNonfinite) = false

theorem FiniteSlopes.singularSlopes {n : Node Float} {d : Node Float × Node Float}
    (hn : n.singular = false) (h : p.FiniteSlopes d) : p.SingularSlopes n d where
  left_mem := h.left_mem
  right_mem := h.right_mem
  singular := by rw [hn, h.left, h.right]; rfl
  single := by rw [h.left]; rfl

/-- The derivatives of a binary operation. -/
theorem ensures_slopes_singular (op : Binary) (hn : .binary i op x y ∈ p) :
    p.Ensures (op.slopes (b.algebra Float) x y (.binary i op x y)) fun q d =>
      q.SingularSlopes (.binary i op x y) d := by
  cases op with
  | mul =>
    -- The derivatives are the operands, and a product of two constants would have been folded.
    refine .pure ⟨mem_right hn, mem_left hn, Bool.or_comm _ _, ?_⟩
    rcases (fold?_binary_eq_none (by decide)).1 (p.unfolded hn) with hx | hy
    · rw [Node.isNonfinite_of_value?_eq_none hx, Bool.and_false]
    · rw [Node.isNonfinite_of_value?_eq_none hy, Bool.false_and]
  | div =>
    refine (ensures_slopes_div b hn).imp fun q d _ hd => ⟨hd.1.1, hd.1.2, ?_, ?_⟩
    · rw [Node.isNonfinite_of_value?_eq_none hd.2.2, Bool.or_false, Node.isNonfinite, hd.2.1,
        Option.any_map]
      rfl
    · rw [Node.isNonfinite_of_value?_eq_none hd.2.2, Bool.and_false]
  | copysign => exact (ensures_slopes_copysign b hn).imp fun _ _ _ hd => hd.singularSlopes rfl
  | ifElseZero => exact (ensures_slopes_ifElseZero b hn).imp fun _ _ _ hd => hd.singularSlopes rfl
  | fmod => exact (ensures_slopes_fmod b hn).imp fun _ _ _ hd => hd.singularSlopes rfl
  | _ => exact (ensures_slopes_finite b (by decide) hn).imp fun _ _ _ hd => hd.singularSlopes rfl

/-! ## Products and sums of zeros -/

/-- A product with zero is zero, unless it is folded to the constant that is no number. -/
theorem ensures_mul_zero (hx : x ∈ p) (hy : y ∈ p) :
    p.Ensures (b.binary .mul x y) fun q n => n ∈ q ∧ (y.isZero →
      (x.isNonfinite = false → n.isZero) ∧ (x.isNonfinite → n.isNaN)) := by
  have hops : ∀ z ∈ (Form.binary .mul x y).operands, z ∈ p :=
    Form.forall_operands_binary.2 ⟨hx, hy⟩
  by_cases hzero : y.isZero
  · obtain ⟨w, hw, hw0⟩ := Node.isZero_iff.1 hzero
    cases hv : x.value? with
    | none =>
      have hfold : Builder.fold? (.binary .mul x y) = none :=
        (fold?_binary_eq_none (by decide)).2 (Or.inl hv)
      have hstep : b.step (.binary .mul x y) = some (.const (Scalar.literal .zero)) := by
        simp [Builder.step, hfold, Builder.binaryRule?, Builder.mul?, hzero]
      refine (ensures_make_value? b hops).imp fun q n _ hn => ⟨hn.1, fun _ => ⟨fun _ => ?_, ?_⟩⟩
      · rw [Builder.settle_of_step hstep, Builder.settle_of_step_eq_none rfl] at hn
        exact Node.isZero_iff.2 ⟨_, hn.2, by decide⟩
      · rw [Node.isNonfinite_of_value?_eq_none hv]
        simp
    | some v =>
      have hfold : Builder.fold? (.binary .mul x y) = some (v * w) := by
        rw [fold?_binary (by decide), hv, hw]
        rfl
      refine (ensures_make_of_fold? b hfold).imp fun q n _ hn => ⟨hn.1, fun _ => ?_⟩
      rw [Node.isNonfinite_of_value? hv]
      exact ⟨fun h => Node.isZero_iff.2 ⟨_, hn.2, Numeric.isZero_mul (by simpa using h) hw0⟩,
        fun h => Node.isNaN_iff.2 ⟨_, hn.2, Numeric.isNaN_mul (by simpa using h) hw0⟩⟩
  · exact (ensures_make b hops).imp fun q n _ hn => ⟨hn.1, fun h => absurd h hzero⟩

/-- A sum of zeros is zero, and a sum of zero and what is no number is no number. -/
theorem ensures_add_zero (hx : x ∈ p) (hy : y ∈ p) :
    p.Ensures (b.binary .add x y) fun q n => n ∈ q ∧ (x.isZero → y.isZero → n.isZero) ∧
      (x.isNaN → y.isZero → n.isNaN) ∧ (x.isZero → y.isNaN → n.isNaN) := by
  have hops : ∀ z ∈ (Form.binary .add x y).operands, z ∈ p :=
    Form.forall_operands_binary.2 ⟨hx, hy⟩
  cases hfold : Builder.fold? (.binary .add x y) with
  | none =>
    -- One of the operands is no constant, so it is neither zero nor the constant that is no number.
    refine (ensures_make b hops).imp fun q n _ hn => ⟨hn.1, ?_⟩
    rcases (fold?_binary_eq_none (by decide)).1 hfold with h | h <;>
      simp [Node.isZero, Node.isLiteral, Node.isValue, Node.isNaN, h]
  | some v =>
    refine (ensures_make_of_fold? b hfold).imp fun q n _ hn => ⟨hn.1, ?_⟩
    rw [fold?_binary (by decide)] at hfold
    obtain ⟨u, hu, hfold⟩ := Option.bind_eq_some_iff.1 hfold
    obtain ⟨w, hw, rfl⟩ := Option.map_eq_some_iff.1 hfold
    rw [Node.isZero_iff, Node.isZero_iff, Node.isZero_iff, Node.isNaN_iff, Node.isNaN_iff,
      Node.isNaN_iff, hn.2, hu, hw]
    simp only [Option.some.injEq, exists_eq_left']
    exact ⟨fun h h' => Numeric.isZero_add h h', fun h _ => Numeric.isNaN_add_left h,
      fun _ h => Numeric.isNaN_add_right h⟩

/-- The tangent of a binary operation, where both tangents of its operands are zero : it is zero,
and at a singular node it is no number. -/
theorem ensures_combine_zero {n dx dy tx ty : Node Float} (h : p.SingularSlopes n (dx, dy))
    (htx : tx ∈ p) (hty : ty ∈ p) :
    p.Ensures (do
      let left ← b.binary .mul dx tx
      let right ← b.binary .mul dy ty
      b.binary .add left right) fun q m => m ∈ q ∧ (tx.isZero → ty.isZero →
        (n.singular = false → m.isZero) ∧ (n.singular → m.isNaN)) := by
  refine (ensures_mul_zero b h.left_mem htx).bind fun q l hpq hl => ?_
  refine (ensures_mul_zero b (mem_of_le hpq h.right_mem) (mem_of_le hpq hty)).bind
    fun r l' hqr hl' => ?_
  refine (ensures_add_zero b (mem_of_le hqr hl.1) hl'.1).imp fun s m _ hm => ⟨hm.1, ?_⟩
  intro hx hy
  obtain ⟨hzero, hnan⟩ := hl.2 hx
  obtain ⟨hzero', hnan'⟩ := hl'.2 hy
  obtain ⟨hsum, hleft, hright⟩ := hm.2
  have hsingle := h.single
  rw [h.singular]
  cases hdx : dx.isNonfinite with
  | false =>
    cases hdy : dy.isNonfinite with
    | false => exact ⟨fun _ => hsum (hzero hdx) (hzero' hdy), nofun⟩
    | true => exact ⟨nofun, fun _ => hright (hzero hdx) (hnan' hdy)⟩
  | true =>
    rw [hdx, Bool.true_and] at hsingle
    exact ⟨nofun, fun _ => hleft (hnan hdx) (hzero' hsingle)⟩

end Heap

/-! ## Unit seeds -/

namespace Tape

variable {t : Tape Float} {openEnded : Bool} {p q : Heap Float} {b : Builder} {x : Node Float}
  {seed : List (SparseMatrix Float)}

/-- The constant one at nonzero `k` of matrix `i`, and constant zeros elsewhere. -/
def IsUnitSeed (seed : List (SparseMatrix Float)) (i k : Nat) : Prop :=
  ∀ a l s, nonzero? seed a l = some s →
    s.value? = some (Scalar.literal (if (a, l) = (i, k) then .one else .zero))

/-- Matrices of the same sizes hold their nonzeros at the same places. -/
theorem exists_nonzero?_of_getElem? {matrices : List (SparseMatrix Float)}
    (hnnz : seed.map (·.nnz) = matrices.map (·.nnz)) {j : Nat} {n s : Node Float}
    (hn : (nonzerosOf matrices)[j]? = some n) (hs : (nonzerosOf seed)[j]? = some s) :
    ∃ a l, nonzero? matrices a l = some n ∧ nonzero? seed a l = some s := by
  have hshape : (matrices.map (·.nonzeros)).map List.length =
      (seed.map (·.nonzeros)).map List.length := by
    simpa [Function.comp_def, SparseMatrix.nnz] using hnnz.symm
  refine (mem_zip_flatten hshape).1 (List.mem_of_getElem? (i := j) ?_)
  exact List.getElem?_zip_eq_some.2 ⟨hn, hs⟩

/-- The seeds of one direction, row by row. -/
theorem seedRows_singleton (seed : List (SparseMatrix Float)) (zero : Node Float) :
    seedRows (nonzerosOf seed).length zero [seed] = (nonzerosOf seed).map fun s => [s] := by
  refine List.ext_getElem (by simp [seedRows]) fun i hi _ => ?_
  have hlt : i < (nonzerosOf seed).length := by simpa [seedRows] using hi
  have hs : (seed.flatMap (·.nonzeros))[i]? = some (nonzerosOf seed)[i] :=
    List.getElem?_eq_getElem hlt
  simp [seedRows, hs]

theorem nonzero?_map (f : Node Float → Node Float) (matrices : List (SparseMatrix Float))
    (i k : Nat) :
    nonzero? (matrices.map fun m => { m with nonzeros := m.nonzeros.map f }) i k =
      (nonzero? matrices i k).map f := by
  rw [nonzero?, List.map_map]
  exact item?_map_nonzeros f matrices i k

/-- In a unit seed, all is zero but what belongs to one nonzero. -/
theorem IsUnitSeed.isZero_or_eq {matrices : List (SparseMatrix Float)} {i k : Nat}
    (h : IsUnitSeed seed i k) (hnnz : seed.map (·.nnz) = matrices.map (·.nnz))
    (hx : nonzero? matrices i k = some x) {j : Nat} {n s : Node Float}
    (hn : (nonzerosOf matrices)[j]? = some n) (hs : (nonzerosOf seed)[j]? = some s) :
    s.isZero ∨ n = x := by
  obtain ⟨a, l, hn, hs⟩ := exists_nonzero?_of_getElem? hnnz hn hs
  have hvalue := h a l s hs
  split_ifs at hvalue with hal
  · obtain ⟨rfl, rfl⟩ := Prod.mk.inj hal
    exact Or.inr (Option.some.inj (hn.symm.trans hx))
  · exact Or.inl (Node.isZero_iff.2 ⟨_, hvalue, by decide⟩)

end Tape

/-! ## Forward -/

/-- What the tangent of a node is in a direction that the node does not need. -/
structure Node.Fades (n tangent : Node Float) : Prop where
  isZero : n.Regular → tangent.isZero
  isNaN : n.singular → (∀ x ∈ n.operands, x.Regular) → tangent.isNaN

theorem Node.Fades.of_isZero {n m : Node Float} (hn : n.singular = false) (hm : m.isZero) :
    n.Fades m :=
  ⟨fun _ => hm, fun h => absurd h (by simp [hn])⟩

namespace Tape

variable {t : Tape Float} {openEnded : Bool} {p q : Heap Float} {b : Builder} {x : Node Float}
  {seed : List (SparseMatrix Float)} {k : Nat} {w : Array (List (Node Float))}

/-- The row holds the tangent of the node in a direction that belongs to the nonzero `x`. -/
def FadesIn (p : Heap Float) (x n : Node Float) (row : List (Node Float)) : Prop :=
  ∃ m, row = [m] ∧ m ∈ p ∧ (¬n.Reaches x → n.Fades m)

theorem FadesIn.mono (hpq : p ≤ q) {n : Node Float} {row : List (Node Float)}
    (h : FadesIn p x n row) : FadesIn q x n row := by
  obtain ⟨m, hrow, hm, hfades⟩ := h
  exact ⟨m, hrow, Heap.mem_of_le hpq hm, hfades⟩

/-- The tangents of the first `k` nodes in the direction. -/
structure Faded (t : Tape Float) (x : Node Float) (p : Heap Float) (k : Nat)
    (w : Array (List (Node Float))) : Prop where
  size : w.size = k
  row : ∀ i n, i < k → t.nodes[i]? = some n → FadesIn p x n (w.getD i [])

theorem Faded.mono (hpq : p ≤ q) (h : t.Faded x p k w) : t.Faded x q k w :=
  ⟨h.size, fun i n hi hn => (h.row i n hi hn).mono hpq⟩

theorem Faded.push (h : t.Faded x p k w) {n : Node Float} (hn : t.nodes[k]? = some n)
    {row : List (Node Float)} (hrow : FadesIn p x n row) : t.Faded x p (k + 1) (w.push row) :=
  ⟨by rw [Array.size_push, h.size], forall_row_push h.size h.row hn hrow⟩

/-- The sweep starts from zeros, but for the nonzero to which the direction belongs. -/
theorem Layout.faded_seedRows (h : t.Layout openEnded) (hseed : ∀ n ∈ nonzerosOf seed, n ∈ p)
    (hlen : (nonzerosOf seed).length = t.width)
    (hunit : ∀ (i : Nat) (n s : Node Float), (nonzerosOf t.inputs)[i]? = some n →
      (nonzerosOf seed)[i]? = some s → s.isZero ∨ n = x) (zero : Node Float) :
    t.Faded x p t.width (seedRows t.width zero [seed]).toArray := by
  refine ⟨by simp [seedRows], fun i n hi hn => ?_⟩
  rw [h.getElem?_input hi] at hn
  obtain ⟨s, hs⟩ : ∃ s, (nonzerosOf seed)[i]? = some s :=
    ⟨_, List.getElem?_eq_getElem (hlen ▸ hi)⟩
  have hget : (seedRows t.width zero [seed]).toArray.getD i [] = [s] := by
    rw [← hlen, seedRows_singleton]
    simp [hs]
  refine ⟨s, hget, hseed s (List.mem_of_getElem? hs), fun hreach => ?_⟩
  have hsymbol : n.singular = false := by
    have := h.symbols n (List.mem_of_getElem? hn)
    cases n with
    | symbol id name => rfl
    | _ => cases this
  refine .of_isZero hsymbol ((hunit i n s hn hs).resolve_right fun he => hreach ?_)
  exact he ▸ .refl n

/-- One step of the sweep. -/
theorem Layout.ensures_tangents_faded (h : t.Layout openEnded) (hp : ∀ n ∈ t.nodes, n ∈ p)
    (hw : t.Faded x p k w) {n : Node Float} (hn : t.nodes[k]? = some n) {zero : Node Float}
    (hzero : zero ∈ p ∧ zero.isZero) :
    p.Ensures (b.tangents t 1 zero w n) fun q row => FadesIn q x n row := by
  have hmem := hp n (List.mem_of_getElem? hn)
  -- The tangents of the operands are there, and they fade if that of the node is to fade.
  have hoperand : ∀ y ∈ n.operands, FadesIn p x y (w.getD (t.position y) []) := fun y hy =>
    hw.row _ y (h.getElem?_operand hp hn hy).1 (h.getElem?_operand hp hn hy).2
  have hreach : ∀ y ∈ n.operands, ¬n.Reaches x → ¬y.Reaches x := fun y hy hnx hyx =>
    hnx (.head hy hyx)
  cases n with
  | const id v => exact .pure ⟨zero, rfl, hzero.1, fun _ => .of_isZero rfl hzero.2⟩
  | symbol id name => exact .pure ⟨zero, rfl, hzero.1, fun _ => .of_isZero rfl hzero.2⟩
  | unary id u y =>
    have hy : y ∈ (Node.unary id u y).operands := by simp [Node.operands]
    obtain ⟨ty, hrow, hty, hfades⟩ := hoperand y hy
    refine (Heap.ensures_slope_finite b u hmem).bind fun q d hpq hd => ?_
    rw [hrow, List.mapM_cons, List.mapM_nil]
    refine (Heap.ensures_mul_zero b hd.1 (Heap.mem_of_le hpq hty)).bind fun r m _ hm =>
      .pure ⟨m, rfl, hm.1, fun hnx => ⟨fun hregular => ?_, nofun⟩⟩
    exact (hm.2 ((hfades (hreach y hy hnx)).isZero (hregular.operand hy))).1 hd.2
  | binary id op y z =>
    have hy : y ∈ (Node.binary id op y z).operands := by simp [Node.operands]
    have hz : z ∈ (Node.binary id op y z).operands := by simp [Node.operands]
    obtain ⟨ty, hrowy, hty, hfadesy⟩ := hoperand y hy
    obtain ⟨tz, hrowz, htz, hfadesz⟩ := hoperand z hz
    refine (Heap.ensures_slopes_singular b op hmem).bind fun q d hpq hd => ?_
    obtain ⟨dy, dz⟩ := d
    dsimp only
    rw [hrowy, hrowz, List.zip_cons_cons, List.zip_nil_right, List.mapM_cons, List.mapM_nil]
    refine (Heap.ensures_combine_zero b hd (Heap.mem_of_le hpq hty)
      (Heap.mem_of_le hpq htz)).bind fun r m _ hm => .pure ⟨m, rfl, hm.1, fun hnx => ?_⟩
    have hzeros : y.Regular → z.Regular → ty.isZero ∧ tz.isZero := fun hry hrz =>
      ⟨(hfadesy (hreach y hy hnx)).isZero hry, (hfadesz (hreach z hz hnx)).isZero hrz⟩
    refine ⟨fun hregular => ?_, fun hs hops => ?_⟩
    · obtain ⟨hty0, htz0⟩ := hzeros (hregular.operand hy) (hregular.operand hz)
      exact (hm.2 hty0 htz0).1 (hregular _ (.refl _))
    · obtain ⟨hty0, htz0⟩ := hzeros (hops y hy) (hops z hz)
      exact (hm.2 hty0 htz0).2 hs

/-- The derivatives of the output nonzeros fade in the direction of an input nonzero that they do
not need. -/
theorem Layout.ensures_pushForward_faded (h : t.Layout openEnded) (b : Builder)
    (hp : ∀ n ∈ t.nodes, n ∈ p) (hout : ∀ n ∈ nonzerosOf t.outputs, n ∈ p)
    (hseed : ∀ n ∈ nonzerosOf seed, n ∈ p) (hnnz : seed.map (·.nnz) = t.inputs.map (·.nnz))
    {i c : Nat} (hx : nonzero? t.inputs i c = some x) (hunit : IsUnitSeed seed i c) :
    p.Ensures (b.pushForward t [seed]) fun _ sens => ∃ sen, sens = [sen] ∧
      ∀ j r n, nonzero? t.outputs j r = some n → ¬n.Reaches x →
        ∃ m, nonzero? sen j r = some m ∧ n.Fades m := by
  refine (Heap.ensures_newConst Scalar.zero).bind fun q zero hpq hzero => ?_
  have hzero' : zero.isZero := Node.isZero_iff.2 ⟨_, hzero.2, by decide⟩
  have hlen : (nonzerosOf seed).length = t.width := by
    rw [length_nonzerosOf, hnnz, width_eq_sum]
  have hstart := h.faded_seedRows (fun n hn => Heap.mem_of_le hpq (hseed n hn)) hlen
    (fun _ _ _ hn hs => hunit.isZero_or_eq hnnz hx hn hs) zero
  have hsweep : q.Ensures (b.forwardSweep t zero [seed]) fun r w => t.Faded x r t.nodes.length w :=
    h.ensures_forwardSweep_of (I := t.Faded x) (fun r k w n hqr _ hn hw =>
      (h.ensures_tangents_faded (fun m hm => Heap.mem_of_le (le_trans hpq hqr) (hp m hm)) hw hn
        ⟨Heap.mem_of_le hqr hzero.1, hzero'⟩).imp fun r' row hr hrow => (hw.mono hr).push hn hrow)
      hstart
  refine hsweep.bind fun r w _ hw => .pure ⟨_, rfl, fun j r' n hn hreach => ?_⟩
  have hlt := h.position_output_lt (mem_nonzerosOf hn)
  obtain ⟨m, hrow, -, hfades⟩ :=
    hw.row _ n hlt (getElem?_position hp (hout n (mem_nonzerosOf hn))
      (h.outputs n (mem_nonzerosOf hn)))
  refine ⟨m, ?_, hfades hreach⟩
  rw [nonzero?_map, hn]
  exact congrArg (fun row => some (row.getD 0 zero)) hrow

end Tape

/-! ## Backward

Here the supply of numbers and the nodes that are made do not matter, so a build is described by its
results alone. -/

namespace Tape

variable {t : Tape Float} {openEnded : Bool} {p : Heap Float} {b : Builder} {root : Node Float}
  {seed : List (SparseMatrix Float)} {w : Array (Builder.Adjoints Float)}

/-- In the one direction that belongs to the nonzero `root`, there are adjoints only where this
nonzero needs the node. -/
structure Reached (t : Tape Float) (root : Node Float) (w : Array (Builder.Adjoints Float)) :
    Prop where
  size : w.size = t.nodes.length
  row : ∀ i n, t.nodes[i]? = some n → ∃ a, w.getD i [] = [a] ∧ (a.isSome → root.Reaches n)

/-- There is an adjoint only if there was one, or if something other than zero is added. -/
theorem always_accumulate (a v : Option (Node Float)) :
    (b.accumulate a v).Always fun r => r.isSome → a.isSome ∨ ∃ m, v = some m ∧ ¬m.isZero := by
  cases v with
  | none =>
    have hkeep : b.accumulate a none = pure a := by cases a <;> rfl
    rw [hkeep]
    exact .pure Or.inl
  | some m =>
    by_cases hm : m.isZero
    · have hkeep : b.accumulate a (some m) = pure a := by
        cases a <;> simp [Builder.accumulate, hm]
      rw [hkeep]
      exact .pure Or.inl
    · exact fun _ _ => Or.inr ⟨m, rfl, hm⟩

/-- Adding what is zero, or at a node that is needed. -/
theorem Reached.always_accumulateAt (h : t.Reached root w) {i : Nat} {n : Node Float}
    (hn : t.nodes[i]? = some n) {v : Option (Node Float)}
    (hv : (∃ m, v = some m ∧ ¬m.isZero) → root.Reaches n) :
    (b.accumulateAt w i [v]).Always (t.Reached root) := by
  obtain ⟨a, hrow, ha⟩ := h.row i n hn
  have hi : i < w.size := h.size ▸ (List.getElem?_eq_some_iff.1 hn).1
  rw [Builder.accumulateAt, hrow, List.zip_cons_cons, List.zip_nil_right, List.mapM_cons,
    List.mapM_nil, bind_assoc]
  refine (always_accumulate a v).bind fun r hr => .pure ⟨?_, fun j m hm => ?_⟩
  · rw [Array.size_setIfInBounds, h.size]
  · by_cases hij : i = j
    · subst hij
      obtain rfl := Option.some.inj (hn.symm.trans hm)
      refine ⟨r, by simp [hi], fun hsome => ?_⟩
      exact (hr hsome).elim ha hv
    · obtain ⟨a', hrow', ha'⟩ := h.row j m hm
      refine ⟨a', ?_, ha'⟩
      rw [← hrow']
      simp [hij]

theorem Reached.always_passRow (h : t.Reached root w) {i : Nat} {n : Node Float}
    (hn : t.nodes[i]? = some n) (hreach : root.Reaches n) (dx a : Node Float) :
    (b.passRow w i dx [some a]).Always (t.Reached root) := by
  have hrow : [some a].mapM (fun a => a.mapM (b.binary .mul dx)) =
      (do let m ← b.binary .mul dx a; return [some m]) := by
    rw [List.mapM_cons, List.mapM_nil]
    rfl
  rw [Builder.passRow, hrow, bind_assoc]
  exact Build.always_bind fun m => h.always_accumulateAt hn fun _ => hreach

/-- One step of the sweep. -/
theorem Layout.always_passBack (h : t.Layout openEnded) (hp : ∀ n ∈ t.nodes, n ∈ p)
    (hw : t.Reached root w) {i : Nat} {n : Node Float} (hn : t.nodes[i]? = some n) :
    (b.passBack t n i w).Always (t.Reached root) := by
  obtain ⟨a, hrow, ha⟩ := hw.row i n hn
  have hoperand : ∀ y ∈ n.operands, t.nodes[t.position y]? = some y := fun y hy =>
    (h.getElem?_operand hp hn hy).2
  cases a with
  | none =>
    have hskip : b.passBack t n i w = pure w := if_pos (by rw [hrow]; rfl)
    rw [hskip]
    exact .pure hw
  | some a =>
    have hreach : ∀ y ∈ n.operands, root.Reaches y := fun y hy =>
      Relation.ReflTransGen.tail (ha rfl) hy
    have hall : ¬(w.getD i []).all (·.isNone) := by simp [hrow]
    cases n with
    | const id v =>
      rw [Builder.passBack_leaf rfl]
      exact .pure hw
    | symbol id name =>
      rw [Builder.passBack_leaf rfl]
      exact .pure hw
    | unary id u y =>
      have hy : y ∈ (Node.unary id u y).operands := by simp [Node.operands]
      rw [Builder.passBack_unary, if_neg hall, hrow]
      exact Build.always_bind fun d => hw.always_passRow (hoperand y hy) (hreach y hy) d a
    | binary id op y z =>
      have hy : y ∈ (Node.binary id op y z).operands := by simp [Node.operands]
      have hz : z ∈ (Node.binary id op y z).operands := by simp [Node.operands]
      rw [Builder.passBack_binary, if_neg hall, hrow]
      refine Build.always_bind fun d => ?_
      exact (hw.always_passRow (hoperand y hy) (hreach y hy) d.1 a).bind fun w' hw' =>
        hw'.always_passRow (hoperand z hz) (hreach z hz) d.2 a

theorem reached_replicate (t : Tape Float) (root : Node Float) :
    t.Reached root (Array.replicate t.nodes.length (List.replicate 1 none)) := by
  refine ⟨Array.size_replicate, fun i n hn => ⟨none, ?_, nofun⟩⟩
  have hi := (List.getElem?_eq_some_iff.1 hn).1
  simp [hi]

/-- Before the sweep, there is an adjoint at the root alone. -/
theorem Layout.always_backwardStart (h : t.Layout openEnded) (hp : ∀ n ∈ t.nodes, n ∈ p)
    (hout : ∀ n ∈ nonzerosOf t.outputs, n ∈ p)
    (hlen : (nonzerosOf seed).length = (nonzerosOf t.outputs).length)
    (hunit : ∀ (j : Nat) (n s : Node Float), (nonzerosOf t.outputs)[j]? = some n →
      (nonzerosOf seed)[j]? = some s → s.isZero ∨ n = root) (zero : Node Float) :
    (b.backwardStart t zero [seed]).Always (t.Reached root) := by
  refine Build.Always.foldlM (fun r hr w hw => ?_) (reached_replicate t root)
  obtain ⟨j, hj⟩ := List.getElem?_of_mem hr
  obtain ⟨hpos, hrow⟩ := List.getElem?_zip_eq_some.1 hj
  rw [flatten_results, List.getElem?_map] at hpos
  obtain ⟨n, hn, hposition⟩ := Option.map_eq_some_iff.1 hpos
  obtain ⟨s, hs⟩ : ∃ s, (nonzerosOf seed)[j]? = some s :=
    ⟨_, List.getElem?_eq_getElem (hlen ▸ (List.getElem?_eq_some_iff.1 hn).1)⟩
  have hcount : t.results.flatten.length = (nonzerosOf seed).length := by
    rw [flatten_results, List.length_map, hlen]
  rw [hcount, seedRows_singleton, List.getElem?_map, hs] at hrow
  have hmem := List.mem_of_getElem? hn
  have hnode := getElem?_position hp (hout n hmem) (h.outputs n hmem)
  obtain ⟨i, row⟩ := r
  obtain rfl := Option.some.inj hrow
  refine hw.always_accumulateAt (hposition ▸ hnode) fun hadd => ?_
  obtain ⟨m, hm, hzero⟩ := hadd
  obtain rfl := Option.some.inj hm
  exact (hunit j n _ hn hs).resolve_left hzero ▸ .refl _

/-- The derivatives of an output nonzero by input nonzeros that it does not need are zero. -/
theorem Layout.always_pullBack (h : t.Layout openEnded) (b : Builder)
    (hp : ∀ n ∈ t.nodes, n ∈ p) (hout : ∀ n ∈ nonzerosOf t.outputs, n ∈ p)
    (hnnz : seed.map (·.nnz) = t.outputs.map (·.nnz)) {j r : Nat}
    (hroot : nonzero? t.outputs j r = some root) (hunit : IsUnitSeed seed j r) :
    (b.pullBack t [seed]).Always fun sens => ∃ sen, sens = [sen] ∧
      ∀ i c x, nonzero? t.inputs i c = some x → ¬root.Reaches x →
        ∃ m, nonzero? sen i c = some m ∧ m.isZero := by
  have hlen : (nonzerosOf seed).length = (nonzerosOf t.outputs).length := by
    rw [length_nonzerosOf, length_nonzerosOf, hnnz]
  have hzero : (Node.newConst (Scalar.zero : Float)).Always (·.isZero) := fun next =>
    Node.isZero_iff.2 ⟨_, rfl, by decide⟩
  refine hzero.bind fun zero hzero => ?_
  have hsweep : (b.backwardSweep t zero [seed]).Always (t.Reached root) := by
    refine (h.always_backwardStart hp hout hlen
      (fun _ _ _ hn hs => hunit.isZero_or_eq hnnz hroot hn hs) zero).bind fun w hw => ?_
    refine Build.Always.foldlM (fun m hm w hw => h.always_passBack hp hw ?_) hw
    exact List.mem_zipIdx_iff_getElem?.1 (List.mem_reverse.1 hm)
  refine hsweep.bind fun w hw => .pure ⟨_, rfl, fun i c x hx hreach => ?_⟩
  have hnode : t.nodes[t.position x]? = some x := by
    obtain ⟨k, hk⟩ := List.getElem?_of_mem (mem_nonzerosOf hx)
    have hlt : k < t.width := width_eq t ▸ (List.getElem?_eq_some_iff.1 hk).1
    rw [h.position_input hk, h.getElem?_input hlt, hk]
  obtain ⟨a, hrow, ha⟩ := hw.row _ x hnode
  refine ⟨zero, ?_, hzero⟩
  have hnone : a = none := Option.not_isSome_iff_eq_none.1 fun hsome => hreach (ha hsome)
  rw [nonzero?_map, hx]
  rw [hnone] at hrow
  exact congrArg (fun row => some ((row.getD 0 none).getD zero)) hrow

/-! ## Runs -/

/-- Forward from accepted seeds, the derivative of an output nonzero by an input nonzero that it
does not need fades. -/
theorem Layout.forward_fades (h : t.Layout openEnded) (b : Builder) {next : Nat}
    (hs : t.Seeding .input [seed] next) {i c j r : Nat} {n x : Node Float}
    (hx : nonzero? t.inputs i c = some x) (hunit : IsUnitSeed seed i c)
    (hn : nonzero? t.outputs j r = some n) (hreach : ¬n.Reaches x) :
    ∃ sen m last, (b.forward t [seed]).run next = (.ok [sen], last) ∧
      nonzero? sen j r = some m ∧ n.Fades m := by
  obtain ⟨p, rfl, hp, hout, hseeds⟩ := hs.exists_heap h
  obtain ⟨hseed, hnnz⟩ := hseeds seed List.mem_cons_self
  obtain ⟨sen, hsen, hfades⟩ :=
    (h.ensures_pushForward_faded b hp hout hseed hnnz hx hunit).result
  obtain ⟨m, hm, hnm⟩ := hfades j r n hn hreach
  have hrun := Builder.forward_run (b := b) hs.accepted p.next
  rw [hsen] at hrun
  exact ⟨sen, m, _, hrun, hm, hnm⟩

/-- Backward from accepted seeds, the derivative of an output nonzero by an input nonzero that it
does not need is zero. -/
theorem Layout.backward_isZero (h : t.Layout openEnded) (b : Builder) {next : Nat}
    (hs : t.Seeding .output [seed] next) {i c j r : Nat} {n x : Node Float}
    (hn : nonzero? t.outputs j r = some n) (hunit : IsUnitSeed seed j r)
    (hx : nonzero? t.inputs i c = some x) (hreach : ¬n.Reaches x) :
    ∃ sen m last, (b.backward t [seed]).run next = (.ok [sen], last) ∧
      nonzero? sen i c = some m ∧ m.isZero := by
  obtain ⟨p, rfl, hp, hout, hseeds⟩ := hs.exists_heap h
  obtain ⟨sen, hsen, hzero⟩ := h.always_pullBack b hp hout
    (hseeds seed List.mem_cons_self).2 hn hunit p.next
  obtain ⟨m, hm, hm0⟩ := hzero i c x hx hreach
  have hrun := Builder.backward_run (b := b) hs.accepted p.next
  rw [hsen] at hrun
  exact ⟨sen, m, _, hrun, hm, hm0⟩

/-- Where the pattern has no cell, the output nonzero does not need the input nonzero. -/
theorem Layout.not_reaches_of_not_hasCell (h : t.Layout openEnded) {side : Side} {next : Nat}
    {seeds : List (List (SparseMatrix Float))} (hs : t.Seeding side seeds next)
    {input output : Int64} {pattern : Pattern}
    (hpattern : t.jacobianPattern input output = .ok pattern) (hnnz : pattern.nnz < 2 ^ 63)
    {r c : Nat} {n x : Node Float} (hn : nonzero? t.outputs output.toNatClampNeg r = some n)
    (hx : nonzero? t.inputs input.toNatClampNeg c = some x)
    (hcell : ¬pattern.HasCell { row := Int64.ofNat r, col := Int64.ofNat c }) :
    ¬n.Reaches x := by
  obtain ⟨p, -, hp, hout, -⟩ := hs.exists_heap h
  exact fun hreach => hcell (h.hasCell_of_reaches (G := p.graph) hp hpattern hnnz hn
    (hout n (mem_nonzerosOf hn)) hx hreach)

/-- Structural zeros of a Jacobian. Take an output nonzero and an input nonzero without a cell in
the pattern. Backward from the unit at the output, the derivative is the constant zero. Forward from
the unit at the input, it is the constant zero if the output needs no singular node; and where an
operation on operands without singular nodes is itself singular, it is the constant that is no
number. -/
theorem structural_zeros {openEnded : Bool} {name : String}
    {inputs outputs : List (SparseMatrix Float)} {t : Tape Float}
    (ht : layOut openEnded name inputs outputs = .ok t) {input output : Int64} {pattern : Pattern}
    (hpattern : t.jacobianPattern input output = .ok pattern) (hnnz : pattern.nnz < 2 ^ 63)
    {r c : Nat} {n x : Node Float} (hn : nonzero? outputs output.toNatClampNeg r = some n)
    (hx : nonzero? inputs input.toNatClampNeg c = some x)
    (hcell : ¬pattern.HasCell { row := Int64.ofNat r, col := Int64.ofNat c }) (b : Builder) :
    (∀ seed next, t.Seeding .input [seed] next → IsUnitSeed seed input.toNatClampNeg c →
      ∃ sen m last, (b.forward t [seed]).run next = (.ok [sen], last) ∧
        nonzero? sen output.toNatClampNeg r = some m ∧ (n.Regular → m.isZero) ∧
        (n.singular → (∀ y ∈ n.operands, y.Regular) → m.isNaN)) ∧
    ∀ seed next, t.Seeding .output [seed] next → IsUnitSeed seed output.toNatClampNeg r →
      ∃ sen m last, (b.backward t [seed]).run next = (.ok [sen], last) ∧
        nonzero? sen input.toNatClampNeg c = some m ∧ m.isZero := by
  have h := layout_of_layOut ht
  obtain ⟨-, rfl, rfl, -⟩ := layOut_ok ht
  refine ⟨fun seed next hs hunit => ?_, fun seed next hs hunit => ?_⟩
  · have hreach := h.not_reaches_of_not_hasCell hs hpattern hnnz hn hx hcell
    obtain ⟨sen, m, last, hrun, hm, hfades⟩ := h.forward_fades b hs hx hunit hn hreach
    exact ⟨sen, m, last, hrun, hm, hfades.isZero, hfades.isNaN⟩
  · have hreach := h.not_reaches_of_not_hasCell hs hpattern hnnz hn hx hcell
    exact h.backward_isZero b hs hn hunit hx hreach

/-! ## A pole

Of two inputs, one is read by both outputs : its sine, and its product with infinity. -/

namespace Pole

open SineProduct (column)

def x : Node Float := .symbol 1 "x"
def y : Node Float := .symbol 2 "y"
def infinity : Node Float := .const 3 (.ofBits 0x7ff0000000000000)
def sine : Node Float := .unary 4 .sin x
def product : Node Float := .binary 5 .mul x infinity
def one : Node Float := .const 8 1
def zero : Node Float := .const 9 0

def tape : Tape Float where
  name := "pole"
  inputs := [column 6 [x, y]]
  outputs := [column 7 [sine, product]]
  toOrder := .ofNodes [x, y, sine, infinity, product] (by decide)

/-- Both outputs need the first input alone. -/
def pattern : Pattern where
  nrow := 2
  ncol := 2
  offsets := [0, 2, 2]
  rows := [0, 1]

/-- The unit at the second input, and at the second output. -/
def direction : List (SparseMatrix Float) := [column 6 [zero, one]]
def weights : List (SparseMatrix Float) := [column 7 [zero, one]]

theorem layOut_tape : layOut false "pole" tape.inputs tape.outputs = .ok tape := by
  rfl

theorem jacobianPattern_tape : tape.jacobianPattern 0 0 = .ok pattern := by
  cbv

theorem built : Built 10 [zero, one, product, sine, infinity, y, x] := by
  have hleaves : Built 4 [infinity, y, x] :=
    (((Built.start 1).symbol "x").symbol "y").const _
  have hsine : Built 5 [sine, infinity, y, x] :=
    hleaves.unary_of_step (b := ⟨0⟩) (by simp) (by rfl)
  have hproduct : Built 6 [product, sine, infinity, y, x] :=
    hsine.binary_of_step (b := ⟨0⟩) (by simp) (by simp) (by rfl)
  exact (hproduct.draw.draw.const 1).const 0

theorem seeding_direction : tape.Seeding .input [direction] 10 where
  accepted := by rfl
  filled := fun _ hm => List.mem_singleton.1 hm ▸ rfl
  seeds_filled := by
    rintro seed hseed m hm
    rw [List.mem_singleton.1 hseed] at hm
    exact List.mem_singleton.1 hm ▸ rfl
  built := ⟨_, built, by simp [tape, column, nonzerosOf], by simp [tape, column, nonzerosOf],
    by simp [direction, column, nonzerosOf]⟩

theorem seeding_weights : tape.Seeding .output [weights] 10 where
  accepted := by rfl
  filled := fun _ hm => List.mem_singleton.1 hm ▸ rfl
  seeds_filled := by
    rintro seed hseed m hm
    rw [List.mem_singleton.1 hseed] at hm
    exact List.mem_singleton.1 hm ▸ rfl
  built := ⟨_, built, by simp [tape, column, nonzerosOf], by simp [tape, column, nonzerosOf],
    by simp [weights, column, nonzerosOf]⟩

theorem isUnitSeed_column (key : Nat) : IsUnitSeed [column key [zero, one]] 0 1 := by
  intro a l s hs
  obtain ⟨m, hm, hl⟩ := nonzero?_eq_some.1 hs
  rcases a with _ | a
  · obtain rfl := Option.some.inj hm
    rcases l with _ | _ | l
    · obtain rfl := Option.some.inj hl
      rfl
    · obtain rfl := Option.some.inj hl
      rfl
    · cases hl
  · cases hm

theorem regular_leaf {n : Node Float} (h : n.operands = []) : n.Regular := by
  refine .of_operands ?_ (by simp [h])
  cases n with
  | binary id op y z => cases h
  | _ => rfl

theorem regular_sine : sine.Regular :=
  .of_operands rfl (by simpa [sine, Node.operands] using regular_leaf rfl)

theorem regular_operands : ∀ n ∈ product.operands, n.Regular := by
  intro n hn
  rcases List.mem_cons.1 hn with rfl | hn
  · exact regular_leaf rfl
  · exact List.mem_singleton.1 hn ▸ regular_leaf rfl

end Pole

/-- A structural zero that is not zero forward : the product is folded before the zero is seen. -/
theorem forward_structural_zero_not_isZero :
    layOut false "pole" Pole.tape.inputs Pole.tape.outputs = .ok Pole.tape ∧
      Pole.tape.jacobianPattern 0 0 = .ok Pole.pattern ∧
      nonzero? Pole.tape.outputs 0 1 = some Pole.product ∧
      nonzero? Pole.tape.inputs 0 1 = some Pole.y ∧
      ¬Pole.pattern.HasCell { row := 1, col := 1 } ∧
      Pole.tape.Seeding .input [Pole.direction] 10 ∧ IsUnitSeed Pole.direction 0 1 ∧
      ∃ sen m last, ((⟨1⟩ : Builder).forward Pole.tape [Pole.direction]).run 10 =
          (.ok [sen], last) ∧ nonzero? sen 0 1 = some m ∧ ¬m.isZero := by
  have hcell : ¬Pole.pattern.HasCell { row := 1, col := 1 } := by decide
  have h := layout_of_layOut Pole.layOut_tape
  have hreach : ¬Pole.product.Reaches Pole.y :=
    h.not_reaches_of_not_hasCell Pole.seeding_direction Pole.jacobianPattern_tape (by decide)
      (r := 1) (c := 1) rfl rfl hcell
  obtain ⟨sen, m, last, hrun, hm, hfades⟩ := h.forward_fades ⟨1⟩ Pole.seeding_direction
    (i := 0) (c := 1) (j := 0) (r := 1) rfl (Pole.isUnitSeed_column 6) rfl hreach
  have hnan : m.isNaN := hfades.isNaN (by decide) Pole.regular_operands
  exact ⟨Pole.layOut_tape, Pole.jacobianPattern_tape, rfl, rfl, hcell, Pole.seeding_direction,
    Pole.isUnitSeed_column 6, sen, m, last, hrun, hm, Node.not_isZero_of_isNaN hnan⟩

/-- The derivative of the sine by the other input is zero in both directions, and so is, backward,
that of the product. -/
theorem structural_zeros_pole :
    layOut false "pole" Pole.tape.inputs Pole.tape.outputs = .ok Pole.tape ∧
      Pole.tape.jacobianPattern 0 0 = .ok Pole.pattern ∧ Pole.pattern.nnz < 2 ^ 63 ∧
      ¬Pole.pattern.HasCell { row := 0, col := 1 } ∧ ¬Pole.pattern.HasCell { row := 1, col := 1 } ∧
      Pole.tape.Seeding .input [Pole.direction] 10 ∧ IsUnitSeed Pole.direction 0 1 ∧
      Pole.tape.Seeding .output [Pole.weights] 10 ∧ IsUnitSeed Pole.weights 0 1 ∧
      Pole.sine.Regular ∧ Pole.product.singular ∧
      (∃ sen m last, ((⟨1⟩ : Builder).forward Pole.tape [Pole.direction]).run 10 =
        (.ok [sen], last) ∧ nonzero? sen 0 0 = some m ∧ m.isZero) ∧
      (∃ sen m last, ((⟨1⟩ : Builder).forward Pole.tape [Pole.direction]).run 10 =
        (.ok [sen], last) ∧ nonzero? sen 0 1 = some m ∧ m.isNaN) ∧
      ∃ sen m last, ((⟨1⟩ : Builder).backward Pole.tape [Pole.weights]).run 10 =
        (.ok [sen], last) ∧ nonzero? sen 0 1 = some m ∧ m.isZero := by
  have hsine : ¬Pole.pattern.HasCell { row := 0, col := 1 } := by decide
  have hproduct : ¬Pole.pattern.HasCell { row := 1, col := 1 } := by decide
  have hnnz : Pole.pattern.nnz < 2 ^ 63 := by decide
  obtain ⟨hforward, -⟩ := structural_zeros Pole.layOut_tape Pole.jacobianPattern_tape hnnz
    (r := 0) (c := 1) rfl rfl hsine ⟨1⟩
  obtain ⟨hforward', hbackward⟩ := structural_zeros Pole.layOut_tape Pole.jacobianPattern_tape hnnz
    (r := 1) (c := 1) rfl rfl hproduct ⟨1⟩
  refine ⟨Pole.layOut_tape, Pole.jacobianPattern_tape, hnnz, hsine, hproduct,
    Pole.seeding_direction, Pole.isUnitSeed_column 6, Pole.seeding_weights,
    Pole.isUnitSeed_column 7, Pole.regular_sine, by decide, ?_, ?_, ?_⟩
  · obtain ⟨sen, m, last, hrun, hm, hzero, -⟩ :=
      hforward _ 10 Pole.seeding_direction (Pole.isUnitSeed_column 6)
    exact ⟨sen, m, last, hrun, hm, hzero Pole.regular_sine⟩
  · obtain ⟨sen, m, last, hrun, hm, -, hnan⟩ :=
      hforward' _ 10 Pole.seeding_direction (Pole.isUnitSeed_column 6)
    exact ⟨sen, m, last, hrun, hm, hnan (by decide) Pole.regular_operands⟩
  · exact hbackward _ 10 Pole.seeding_weights (Pole.isUnitSeed_column 7)

end Tape

end Tangent
