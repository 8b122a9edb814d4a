import Tangent.Proofs.EqualUpTo
import Tangent.Proofs.Rewriting

/-!
# Any zero will do

What a builder makes is, as an expression, what its rules come to (`Builder.expr_make`). The rules
look at the number of a node only to see whether two nodes are one. Where an operand is the constant
zero they never come to that, or the other operand is no constant and so is another node. This is
why any other constant zero in its place gives the same expression (`Builder.expr_settle_getD`).
-/

namespace Tangent

variable {K : Type}

/-! ## Nodes as expressions -/

/-- The expression that a node is, whatever the numbers of constants and operations are. -/
def Node.expr (n : Node K) : Term K :=
  n.term fun v => v

/-- The expression of the node that a form stands for. -/
def Form.expr : Form K → Term K
  | node n => n.expr
  | const v => .const v
  | unary u x => .unary u x.expr
  | binary op x y => .binary op x.expr y.expr

theorem Node.exists_const {n : Node K} {v : K} (h : n.value? = some v) : ∃ i, n = .const i v := by
  cases n <;> simp_all [Node.value?]

variable [Scalar K]

/-- The expression is the constant zero, of either sign. -/
def Term.isZero : Term K → Bool
  | const v => Scalar.isZero v
  | _ => false

@[simp] theorem Node.isZero_expr (n : Node K) : n.expr.isZero = n.isZero := by
  cases n <;> rfl

namespace Builder

variable {b : Builder} {x y : Node K} {v : K} {i j : Nat} {op : Binary}

theorem expr_make (b : Builder) (f : Form K) (next : Nat) :
    (b.make f next).1.expr = (b.settle f).expr := by
  unfold make
  cases b.settle f <;> rfl

/-! ## Zero as an operand -/

/-- A constant is no other node. -/
theorem equal_const (hx : x.value? = none) (hi : x.id ≠ i) :
    b.equal (.const i v) x = false ∧ b.equal x (.const i v) = false := by
  have hi' : i ≠ x.id := hi.symm
  unfold equal
  cases b.depth.toNatClampNeg with
  | zero => exact ⟨beq_false_of_ne hi', beq_false_of_ne hi⟩
  | succ depth =>
    have hsame : (Node.const i v).same x = false := beq_false_of_ne hi'
    have hsame' : x.same (Node.const i v) = false := beq_false_of_ne hi
    cases x with
    | const j w => cases hx
    | _ => simp [Node.equalUpTo, hsame, hsame']

theorem isLiteral_of_value? (hx : x.value? = none) (l : Literal) : x.isLiteral l = false := by
  simp [Node.isLiteral, Node.isValue, hx]

/-- The rules for a zero on the left never ask which zero it is. -/
theorem binaryRule?_zero_left (hv : Scalar.isZero v) (hy : y.value? = none) (hi : y.id ≠ i)
    (hj : y.id ≠ j) :
    b.binaryRule? op (.const i v) y = b.binaryRule? op (.const j v) y := by
  have hzero : ∀ k, (Node.const k v).isZero = true := fun _ => hv
  have hother : y.isZero = false := isLiteral_of_value? hy .zero
  cases op <;>
    simp [binaryRule?, add?, sub?, mul?, hzero, hother, isLiteral_of_value? hy, Node.isConst, hy,
      equal_const hy hi, equal_const hy hj]

/-- The rules for a zero on the right never ask which zero it is, unless it is the exponent of a
power. -/
theorem binaryRule?_zero_right (hv : Scalar.isZero v) (hop : op ≠ .pow) (hx : x.value? = none)
    (hi : x.id ≠ i) (hj : x.id ≠ j) :
    b.binaryRule? op x (.const i v) = b.binaryRule? op x (.const j v) := by
  have hzero : ∀ k, (Node.const k v).isZero = true := fun _ => hv
  have hone : (Node.const i v).isLiteral .one = (Node.const j v).isLiteral .one := rfl
  have hother : x.isZero = false := isLiteral_of_value? hx .zero
  cases op <;>
    simp_all [binaryRule?, add?, sub?, mul?, equal_const hx hi, equal_const hx hj]

/-- What settles by the same rule has the same expression. -/
theorem expr_settle_of_rule {x' y' : Node K} (hfold : fold? (.binary op x y) = none)
    (hfold' : fold? (.binary op x' y') = none)
    (hrule : b.binaryRule? op x y = b.binaryRule? op x' y') (hx : x.expr = x'.expr)
    (hy : y.expr = y'.expr) :
    (b.settle (.binary op x y)).expr = (b.settle (.binary op x' y')).expr := by
  have hstep : b.step (.binary op x y) = b.binaryRule? op x y := by simp only [step, hfold]
  have hstep' : b.step (.binary op x' y') = b.binaryRule? op x y := by
    simp only [step, hfold', hrule]
  cases hg : b.binaryRule? op x y with
  | none =>
    rw [hg] at hstep hstep'
    rw [settle_of_step_eq_none hstep, settle_of_step_eq_none hstep', Form.expr, Form.expr, hx, hy]
  | some g =>
    rw [hg] at hstep hstep'
    rw [settle_of_step hstep, settle_of_step hstep']

theorem fold?_eq_none (h : x.value? = none ∨ y.value? = none) :
    fold? (.binary op x y) = none := by
  rcases h with h | h <;> cases op <;> simp [fold?, h]

theorem expr_settle_zero_left (hv : Scalar.isZero v) (hy : y.value? = none) (hi : y.id ≠ i)
    (hj : y.id ≠ j) :
    (b.settle (.binary op (.const i v) y)).expr = (b.settle (.binary op (.const j v) y)).expr :=
  expr_settle_of_rule (fold?_eq_none (.inr hy)) (fold?_eq_none (.inr hy))
    (binaryRule?_zero_left hv hy hi hj) rfl rfl

theorem expr_settle_zero_right (hv : Scalar.isZero v) (hx : x.value? = none) (hi : x.id ≠ i)
    (hj : x.id ≠ j) :
    (b.settle (.binary op x (.const i v))).expr = (b.settle (.binary op x (.const j v))).expr := by
  have hother : ∀ op, op ≠ .pow → (b.settle (.binary op x (.const i v))).expr =
      (b.settle (.binary op x (.const j v))).expr := fun op hop =>
    expr_settle_of_rule (fold?_eq_none (.inl hx)) (fold?_eq_none (.inl hx))
      (binaryRule?_zero_right hv hop hx hi hj) rfl rfl
  by_cases hop : op = .pow
  · -- A power with a constant exponent is another operation first.
    subst hop
    have hpow : ∀ k, b.settle (.binary .pow x (.const k v)) =
        b.settle (.binary .constpow x (.const k v)) := by
      intro k
      refine settle_of_step ?_
      simp only [step, fold?_eq_none (.inl hx)]
      rfl
    rw [hpow, hpow]
    exact hother .constpow (by decide)
  · exact hother op hop

/-- Two constants are folded. -/
theorem settle_const_const (hop : op ≠ .printme) {w : K} :
    b.settle (.binary op (.const i v) (.const j w)) = .const (Scalar.binary op v w) := by
  refine settle_of_fold? ?_
  cases op <;> simp_all [fold?, Node.value?]

/-- An operand that is missing may be any zero whose number is not that of the other operand. -/
theorem expr_settle_getD {next i' j' : Nat} {ox oy : Option (Node K)} (hv : Scalar.isZero v)
    (hop : op ≠ .printme) (hx : ∀ n ∈ ox, n.id < next) (hy : ∀ n ∈ oy, n.id < next)
    (hi : next ≤ i) (hj : next ≤ j) (hi' : next ≤ i') (hj' : next ≤ j') :
    (b.settle (.binary op (ox.getD (.const i v)) (oy.getD (.const j v)))).expr =
      (b.settle (.binary op (ox.getD (.const i' v)) (oy.getD (.const j' v)))).expr := by
  cases ox with
  | none =>
    cases oy with
    | none => simp only [Option.getD_none, settle_const_const hop]
    | some y =>
      have hlt := hy y rfl
      cases hval : y.value? with
      | none => exact expr_settle_zero_left (y := y) hv hval (by omega) (by omega)
      | some w =>
        obtain ⟨k, rfl⟩ := Node.exists_const hval
        simp only [Option.getD_none, Option.getD_some, settle_const_const hop]
  | some x =>
    cases oy with
    | none =>
      have hlt := hx x rfl
      cases hval : x.value? with
      | none => exact expr_settle_zero_right (x := x) hv hval (by omega) (by omega)
      | some w =>
        obtain ⟨k, rfl⟩ := Node.exists_const hval
        simp only [Option.getD_none, Option.getD_some, settle_const_const hop]
    | some y => rfl

end Builder

end Tangent
