import Tangent.Proofs.Heap

/-!
# Simplification keeps values

A `Model` interprets constants and operations in some carrier, so that every node has a value once
the symbols have one. Nothing is known about the carrier but the identities that the rules of the
simplifier are read from (`Model.Lawful`). One rule keeps the value of a form
(`Lawful.formValue_of_rewrites`), so settling does (`Lawful.formValue_settle`), and the node that a
builder makes has the value that was asked for (`Lawful.ensures_make`).

Folding is the exception : it computes with the constants themselves, not in the model. It only
happens at the first step, because no rule leads to a form that folds
(`fold?_of_rewrites`).
-/

namespace Tangent

variable {S A : Type}

/-- The two notions of sameness tell numbers apart as they should : `identical` tells apart all of
them, and `equals` all but the zeros. -/
class Scalar.Faithful (S : Type) [Scalar S] : Prop where
  eq_of_identical : ∀ {v w : S}, Scalar.identical v w → v = w
  eq_of_equals : ∀ {v w : S}, Scalar.equals v w → v = w ∨ Scalar.isZero v ∧ Scalar.isZero w

/-- An interpretation of constants and operations. -/
structure Model (S A : Type) where
  const : S → A
  unary : Unary → A → A
  binary : Binary → A → A → A

namespace Model

/-- Numbers as a model of themselves. -/
def self (S : Type) [Scalar S] : Model S S where
  const v := v
  unary := Scalar.unary
  binary := Scalar.binary

/-- The value of a node, where `env` gives the value of each symbol by its number. -/
def value (M : Model S A) (env : Nat → A) : Node S → A
  | .const _ v => M.const v
  | .symbol id _ => env id
  | .unary _ u x => M.unary u (M.value env x)
  | .binary _ op x y => M.binary op (M.value env x) (M.value env y)

/-- The value that a form asks for. -/
def formValue (M : Model S A) (env : Nat → A) : Form S → A
  | .node n => M.value env n
  | .const v => M.const v
  | .unary u x => M.unary u (M.value env x)
  | .binary op x y => M.binary op (M.value env x) (M.value env y)

theorem formValue_form (M : Model S A) (env : Nat → A) (n : Node S) :
    M.formValue env n.form = M.value env n := by
  cases n <;> rfl

variable [Scalar S]

/-- If the form is folded at all, it is folded exactly. -/
def ExactOn (M : Model S A) (env : Nat → A) (f : Form S) : Prop :=
  ∀ v, Builder.fold? f = some v → M.const v = M.formValue env f

def literal (M : Model S A) (l : Literal) : A :=
  M.const (Scalar.literal l)

/-- The ways to write a half. -/
def halves (M : Model S A) (a : A) : List A :=
  [M.binary .mul (M.literal .half) a, M.binary .mul a (M.literal .half),
    M.binary .div a (M.literal .two)]

/-- The identities that the simplifier rests on. -/
structure Lawful (M : Model S A) : Prop where
  const_zero : ∀ v : S, Scalar.isZero v → M.const v = M.literal .zero
  comm : ∀ op : Binary, op.commutative → ∀ a b, M.binary op a b = M.binary op b a
  add_zero : ∀ a, M.binary .add a (M.literal .zero) = a
  add_neg : ∀ a b, M.binary .add a (M.unary .neg b) = M.binary .sub a b
  sub_add : ∀ a b, M.binary .add (M.binary .sub a b) b = a
  add_halves : ∀ a, ∀ h₁ ∈ M.halves a, ∀ h₂ ∈ M.halves a, M.binary .add h₁ h₂ = a
  sin_add_cos : ∀ a, M.binary .add (M.unary .sq (M.unary .sin a)) (M.unary .sq (M.unary .cos a)) =
    M.literal .one
  sub_zero : ∀ a, M.binary .sub a (M.literal .zero) = a
  zero_sub : ∀ a, M.binary .sub (M.literal .zero) a = M.unary .neg a
  sub_self : ∀ a, M.binary .sub a a = M.literal .zero
  sub_neg : ∀ a b, M.binary .sub a (M.unary .neg b) = M.binary .add a b
  mul_zero : ∀ a, M.binary .mul a (M.literal .zero) = M.literal .zero
  mul_one : ∀ a, M.binary .mul a (M.literal .one) = a
  mul_negOne : ∀ a, M.binary .mul a (M.literal .negOne) = M.unary .neg a
  mul_self : ∀ a, M.binary .mul a a = M.unary .sq a
  div_one : ∀ a, M.binary .div a (M.literal .one) = a
  neg_neg : ∀ a, M.unary .neg (M.unary .neg a) = a
  pow_const : ∀ a v, M.binary .pow a (M.const v) = M.binary .constpow a (M.const v)
  constpow_one : ∀ a, M.binary .constpow a (M.literal .one) = a
  fmin_self : ∀ a, M.binary .fmin a a = a
  fmax_self : ∀ a, M.binary .fmax a a = a

/-! ## Values of nodes that look alike -/

/-- The commutative operations do commute. -/
def Commutes (M : Model S A) : Prop :=
  ∀ op : Binary, op.commutative → ∀ a b, M.binary op a b = M.binary op b a

/-- Nodes of a graph that are equal to some depth have one value, wherever the commutative
operations commute. -/
theorem Commutes.value_of_equalUpTo [Scalar.Faithful S] {M : Model S A} {G : Graph S}
    (env : Nat → A) (hM : M.Commutes) :
    ∀ (depth : Nat) {x y : Node S}, x ∈ G → y ∈ G → x.equalUpTo depth y →
      M.value env x = M.value env y
  | 0, x, y, hx, hy, h => by
    rw [G.eq_of_id hx hy (by simpa [Node.equalUpTo, Node.same] using h)]
  | depth + 1, x, y, hx, hy, h => by
    rcases Node.equalUpTo_succ_cases h with he | ⟨i, j, v, w, rfl, rfl, he⟩ |
      ⟨i, j, u, a, c, rfl, rfl, he⟩ | ⟨i, j, op, a, a', c, c', rfl, rfl, he⟩
    · rw [G.eq_of_id hx hy he]
    · exact congrArg M.const (Scalar.Faithful.eq_of_identical he)
    · exact congrArg (M.unary u)
        (hM.value_of_equalUpTo env depth (Graph.mem_of_unary hx) (Graph.mem_of_unary hy) he)
    · have ih := fun {x y : Node S} => hM.value_of_equalUpTo (G := G) env depth (x := x) (y := y)
      rcases he with ⟨he, he'⟩ | ⟨hcomm, he, he'⟩
      · rw [value, value, ih (Graph.mem_left hx) (Graph.mem_left hy) he,
          ih (Graph.mem_right hx) (Graph.mem_right hy) he']
      · rw [value, value, ih (Graph.mem_left hx) (Graph.mem_right hy) he,
          ih (Graph.mem_right hx) (Graph.mem_left hy) he', hM op hcomm]

namespace Lawful

variable [Scalar.Faithful S] {M : Model S A} (env : Nat → A) {p : Heap S}

theorem const_of_equals (hM : M.Lawful) {v w : S} (h : Scalar.equals v w) :
    M.const v = M.const w := by
  rcases Scalar.Faithful.eq_of_equals h with rfl | ⟨hv, hw⟩
  · rfl
  · rw [hM.const_zero v hv, hM.const_zero w hw]

theorem value_of_isLiteral (hM : M.Lawful) {n : Node S} {l : Literal} (h : n.isLiteral l) :
    M.value env n = M.literal l := by
  cases n with
  | const i v =>
    exact hM.const_of_equals (by simpa [Node.isLiteral, Node.isValue, Node.value?] using h)
  | _ => simp [Node.isLiteral, Node.isValue, Node.value?] at h

theorem value_of_isZero (hM : M.Lawful) {n : Node S} (h : n.isZero) :
    M.value env n = M.literal .zero :=
  hM.value_of_isLiteral env h

/-- Nodes that are equal to some depth have one value. -/
theorem value_of_equalUpTo (hM : M.Lawful) (depth : Nat) {x y : Node S} (hx : x ∈ p) (hy : y ∈ p)
    (h : x.equalUpTo depth y) : M.value env x = M.value env y :=
  Commutes.value_of_equalUpTo (G := p.graph) env hM.comm depth hx hy h

theorem value_of_equal (hM : M.Lawful) {b : Builder} {x y : Node S} (hx : x ∈ p) (hy : y ∈ p)
    (h : b.equal x y) : M.value env x = M.value env y :=
  hM.value_of_equalUpTo env _ hx hy h

theorem value_of_halved? (hM : M.Lawful) {x a : Node S} (h : x.halved? = some a) :
    M.value env x ∈ M.halves (M.value env a) := by
  unfold Node.halved? at h
  split at h
  · split_ifs at h with h₁ h₂ <;> cases h
    · simp [value, halves, hM.value_of_isLiteral env h₁]
    · simp [value, halves, hM.value_of_isLiteral env h₂]
  · split_ifs at h with h₁
    cases h
    simp [value, halves, hM.value_of_isLiteral env h₁]
  · cases h

/-! ## The rules -/

/-- Every rule keeps the value. -/
theorem formValue_of_rewrites (hM : M.Lawful) {b : Builder} {f g : Form S} (h : Rewrites b f g)
    (hf : ∀ x ∈ f.operands, x ∈ p) : M.formValue env g = M.formValue env f := by
  have hadd := hM.comm .add rfl
  have hmul := hM.comm .mul rfl
  have hlit := fun {n : Node S} {l : Literal} (h : n.isLiteral l) =>
    hM.value_of_isLiteral env h
  cases h with
  | zero_add hx => rw [formValue, formValue, hM.value_of_isZero env hx, hadd, hM.add_zero]
  | add_zero hy => rw [formValue, formValue, hM.value_of_isZero env hy, hM.add_zero]
  | add_neg => exact (hM.add_neg _ _).symm
  | neg_add => rw [formValue, formValue, value, hadd, hM.add_neg]
  | sub_add he =>
    obtain ⟨hx, hy⟩ := Form.forall_operands_binary.1 hf
    rw [formValue, formValue, value, hM.value_of_equal env (Heap.mem_right hx) hy he, hM.sub_add]
  | add_sub he =>
    obtain ⟨hx, hy⟩ := Form.forall_operands_binary.1 hf
    rw [formValue, formValue, value, hM.value_of_equal env (Heap.mem_right hy) hx he, hadd,
      hM.sub_add]
  | add_halves ha hc he =>
    obtain ⟨hx, hy⟩ := Form.forall_operands_binary.1 hf
    have hx' := hM.value_of_halved? env ha
    have hy' := hM.value_of_halved? env hc
    rw [← hM.value_of_equal env (p.operands_mem hx (Node.mem_operands_of_halved? ha))
      (p.operands_mem hy (Node.mem_operands_of_halved? hc)) he] at hy'
    exact (hM.add_halves _ _ hx' _ hy').symm
  | sin_add_cos he =>
    obtain ⟨hx, hy⟩ := Form.forall_operands_binary.1 hf
    have hsc := hM.value_of_equal env (Heap.mem_of_unary (Heap.mem_of_unary hx))
      (Heap.mem_of_unary (Heap.mem_of_unary hy)) he
    simp only [formValue, value, hsc, hM.sin_add_cos]
    rfl
  | cos_add_sin he =>
    obtain ⟨hx, hy⟩ := Form.forall_operands_binary.1 hf
    have hsc := hM.value_of_equal env (Heap.mem_of_unary (Heap.mem_of_unary hy))
      (Heap.mem_of_unary (Heap.mem_of_unary hx)) he
    rw [formValue, formValue, hadd]
    simp only [value, hsc, hM.sin_add_cos]
    rfl
  | sub_zero hy => rw [formValue, formValue, hM.value_of_isZero env hy, hM.sub_zero]
  | zero_sub hx => rw [formValue, formValue, hM.value_of_isZero env hx, hM.zero_sub]
  | sub_self he =>
    obtain ⟨hx, hy⟩ := Form.forall_operands_binary.1 hf
    rw [formValue, formValue, hM.value_of_equal env hx hy he, hM.sub_self]
    rfl
  | sub_neg => exact (hM.sub_neg _ _).symm
  | zero_mul hx =>
    rw [formValue, formValue, hM.value_of_isZero env hx, hmul, hM.mul_zero]
    rfl
  | mul_zero hy =>
    rw [formValue, formValue, hM.value_of_isZero env hy, hM.mul_zero]
    rfl
  | one_mul hx => rw [formValue, formValue, hlit hx, hmul, hM.mul_one]
  | mul_one hy => rw [formValue, formValue, hlit hy, hM.mul_one]
  | negOne_mul hx => rw [formValue, formValue, hlit hx, hmul, hM.mul_negOne]
  | mul_negOne hy => rw [formValue, formValue, hlit hy, hM.mul_negOne]
  | mul_self he =>
    obtain ⟨hx, hy⟩ := Form.forall_operands_binary.1 hf
    rw [formValue, formValue, ← hM.value_of_equal env hx hy he, hM.mul_self]
  | div_one hy => rw [formValue, formValue, hlit hy, hM.div_one]
  | constpow_one hy => rw [formValue, formValue, hlit hy, hM.constpow_one]
  | @pow_const x y hy =>
    cases y with
    | const i v => exact (hM.pow_const _ v).symm
    | _ => simp [Node.isConst, Node.value?] at hy
  | fmin_self he =>
    obtain ⟨hx, hy⟩ := Form.forall_operands_binary.1 hf
    rw [formValue, formValue, ← hM.value_of_equal env hx hy he, hM.fmin_self]
  | fmax_self he =>
    obtain ⟨hx, hy⟩ := Form.forall_operands_binary.1 hf
    rw [formValue, formValue, ← hM.value_of_equal env hx hy he, hM.fmax_self]
  | neg_neg => exact (hM.neg_neg _).symm

/-! ## Settling and making -/

/-- Settling keeps the value, if what is asked for does not fold or folds to its value. -/
theorem formValue_settle (hM : M.Lawful) (b : Builder) {f : Form S}
    (hf : ∀ x ∈ f.operands, x ∈ p) (hexact : M.ExactOn env f) :
    M.formValue env (b.settle f) = M.formValue env f := by
  cases hfold : Builder.fold? f with
  | some v =>
    rw [Builder.settle_of_fold? hfold]
    exact hexact v hfold
  | none =>
    -- A step from a form that does not fold applies a rule, and leads to another such form.
    refine (Builder.settle_induction (b := b) (P := fun g => (∀ x ∈ g.operands, x ∈ p) ∧
      Builder.fold? g = none ∧ M.formValue env g = M.formValue env f) ?_ f
      ⟨hf, hfold, rfl⟩).1.2.2
    rintro g g' h ⟨hg, hnone, hvalue⟩
    rcases Builder.step_cases h with ⟨v, hv, -⟩ | ⟨-, h⟩
    · rw [hnone] at hv
      cases hv
    · exact ⟨h.operands_inherit (fun n hn x hx => p.operands_mem hn hx) hg,
        Heap.fold?_of_rewrites h hg hnone, (hM.formValue_of_rewrites env h hg).trans hvalue⟩

/-- The node that is made has the value that was asked for. -/
theorem ensures_make (hM : M.Lawful) (b : Builder) {f : Form S} (hf : ∀ x ∈ f.operands, x ∈ p)
    (hexact : M.ExactOn env f) :
    p.Ensures (b.make f) fun q n => n ∈ q ∧ M.value env n = M.formValue env f := by
  refine (Heap.ensures_make b hf).imp fun q n _ ⟨hn, hs⟩ => ⟨hn, ?_⟩
  rw [← hM.formValue_settle env b hf hexact]
  rcases hs with hs | hs
  · rw [hs, formValue]
  · rw [hs, formValue_form]

end Lawful

end Model

end Tangent
