import Mathlib.Tactic.SplitIfs
import Tangent.Node.Builder

/-!
# The rules of the simplifier

`Rewrites b f g` says which form a builder may put in place of another, one constructor for each
rule. A step of the builder folds constants or applies one of these rules (`step_cases`), so
whatever is to be shown about simplification is shown rule by rule. `settle_induction` then takes
it from one step to a settled form.
-/

namespace Tangent

variable {K : Type}

/-- The nodes that a form is made of. -/
def Form.operands : Form K → List (Node K)
  | node n => [n]
  | const _ => []
  | unary _ x => [x]
  | binary _ x y => [x, y]

theorem Form.forall_operands_binary {op : Binary} {x y : Node K} {P : Node K → Prop} :
    (∀ n ∈ (Form.binary op x y).operands, P n) ↔ P x ∧ P y := by
  simp [operands]

/-- What a builder is asked for when it makes a node like this one. -/
def Node.form : Node K → Form K
  | const _ v => .const v
  | symbol id name => .node (symbol id name)
  | unary _ u x => .unary u x
  | binary _ op x y => .binary op x y

variable [Scalar K]

/-- The simplification rules. -/
inductive Rewrites (b : Builder) : Form K → Form K → Prop
  | zero_add {x y : Node K} : x.isZero → Rewrites b (.binary .add x y) (.node y)
  | add_zero {x y : Node K} : y.isZero → Rewrites b (.binary .add x y) (.node x)
  | add_neg {i : Nat} {x a : Node K} :
      Rewrites b (.binary .add x (.unary i .neg a)) (.binary .sub x a)
  | neg_add {i : Nat} {a y : Node K} :
      Rewrites b (.binary .add (.unary i .neg a) y) (.binary .sub y a)
  | sub_add {i : Nat} {a c y : Node K} : b.equal c y →
      Rewrites b (.binary .add (.binary i .sub a c) y) (.node a)
  | add_sub {i : Nat} {x a c : Node K} : b.equal c x →
      Rewrites b (.binary .add x (.binary i .sub a c)) (.node a)
  | add_halves {x y a c : Node K} : x.halved? = some a → y.halved? = some c → b.equal a c →
      Rewrites b (.binary .add x y) (.node a)
  | sin_add_cos {i j k l : Nat} {s c : Node K} : b.equal s c →
      Rewrites b (.binary .add (.unary i .sq (.unary j .sin s)) (.unary k .sq (.unary l .cos c)))
        (.const (Scalar.literal .one))
  | cos_add_sin {i j k l : Nat} {s c : Node K} : b.equal s c →
      Rewrites b (.binary .add (.unary i .sq (.unary j .cos c)) (.unary k .sq (.unary l .sin s)))
        (.const (Scalar.literal .one))
  | sub_zero {x y : Node K} : y.isZero → Rewrites b (.binary .sub x y) (.node x)
  | zero_sub {x y : Node K} : x.isZero → Rewrites b (.binary .sub x y) (.unary .neg y)
  | sub_self {x y : Node K} : b.equal x y →
      Rewrites b (.binary .sub x y) (.const (Scalar.literal .zero))
  | sub_neg {i : Nat} {x a : Node K} :
      Rewrites b (.binary .sub x (.unary i .neg a)) (.binary .add x a)
  | zero_mul {x y : Node K} : x.isZero →
      Rewrites b (.binary .mul x y) (.const (Scalar.literal .zero))
  | mul_zero {x y : Node K} : y.isZero →
      Rewrites b (.binary .mul x y) (.const (Scalar.literal .zero))
  | one_mul {x y : Node K} : x.isLiteral .one → Rewrites b (.binary .mul x y) (.node y)
  | mul_one {x y : Node K} : y.isLiteral .one → Rewrites b (.binary .mul x y) (.node x)
  | negOne_mul {x y : Node K} : x.isLiteral .negOne →
      Rewrites b (.binary .mul x y) (.unary .neg y)
  | mul_negOne {x y : Node K} : y.isLiteral .negOne →
      Rewrites b (.binary .mul x y) (.unary .neg x)
  | mul_self {x y : Node K} : b.equal x y → Rewrites b (.binary .mul x y) (.unary .sq x)
  | div_one {x y : Node K} : y.isLiteral .one → Rewrites b (.binary .div x y) (.node x)
  | constpow_one {x y : Node K} : y.isLiteral .one → Rewrites b (.binary .constpow x y) (.node x)
  | pow_const {x y : Node K} : y.isConst →
      Rewrites b (.binary .pow x y) (.binary .constpow x y)
  | fmin_self {x y : Node K} : b.equal x y → Rewrites b (.binary .fmin x y) (.node x)
  | fmax_self {x y : Node K} : b.equal x y → Rewrites b (.binary .fmax x y) (.node x)
  | neg_neg {i : Nat} {a : Node K} : Rewrites b (.unary .neg (.unary i .neg a)) (.node a)

/-! ## Shapes -/

namespace Node

omit [Scalar K] in
theorem negated?_eq_some {n a : Node K} (h : n.negated? = some a) : ∃ i, n = .unary i .neg a := by
  unfold negated? at h
  split at h
  · cases h
    exact ⟨_, rfl⟩
  · cases h

omit [Scalar K] in
theorem difference?_eq_some {n a c : Node K} (h : n.difference? = some (a, c)) :
    ∃ i, n = .binary i .sub a c := by
  unfold difference? at h
  split at h
  · cases h
    exact ⟨_, rfl⟩
  · cases h

omit [Scalar K] in
theorem squareOf?_eq_some {u : Unary} {n a : Node K} (h : n.squareOf? u = some a) :
    ∃ i j, n = .unary i .sq (.unary j u a) := by
  unfold squareOf? at h
  split at h
  · split at h
    · next hu =>
      subst hu
      cases h
      exact ⟨_, _, rfl⟩
    · cases h
  · cases h

/-- Nodes that are equal are one node, constants alike, or one operation on equal operands. -/
theorem equalUpTo_succ_cases {depth : Nat} {m n : Node K} (h : m.equalUpTo (depth + 1) n) :
    m.id = n.id ∨
      (∃ i j v w, m = .const i v ∧ n = .const j w ∧ Scalar.identical v w) ∨
      (∃ i j u x x', m = .unary i u x ∧ n = .unary j u x' ∧ x.equalUpTo depth x') ∨
      ∃ i j op x y x' y', m = .binary i op x y ∧ n = .binary j op x' y' ∧
        (x.equalUpTo depth x' ∧ y.equalUpTo depth y' ∨
          op.commutative ∧ x.equalUpTo depth y' ∧ y.equalUpTo depth x') := by
  unfold equalUpTo at h
  rw [Bool.or_eq_true] at h
  rcases h with h | h
  · exact Or.inl (by simpa [same] using h)
  · refine Or.inr ?_
    split at h
    · exact Or.inl ⟨_, _, _, _, rfl, rfl, h⟩
    · simp only [Bool.and_eq_true, beq_iff_eq] at h
      obtain ⟨rfl, h⟩ := h
      exact Or.inr (Or.inl ⟨_, _, _, _, _, rfl, rfl, h⟩)
    · simp only [Bool.and_eq_true, Bool.or_eq_true, beq_iff_eq, and_assoc] at h
      obtain ⟨rfl, h⟩ := h
      exact Or.inr (Or.inr ⟨_, _, _, _, _, _, _, rfl, rfl, h⟩)
    · cases h

end Node

/-! ## Steps -/

namespace Builder

variable {b : Builder} {x y : Node K} {f g : Form K}

theorem rewrites_of_add? (h : b.add? x y = some g) : Rewrites b (.binary .add x y) g := by
  unfold add? at h
  split at h
  · next hx =>
    cases h
    exact .zero_add hx
  split at h
  · next hy =>
    cases h
    exact .add_zero hy
  split at h
  · next a ha =>
    cases h
    obtain ⟨i, rfl⟩ := Node.negated?_eq_some ha
    exact .add_neg
  split at h
  · next a ha =>
    cases h
    obtain ⟨i, rfl⟩ := Node.negated?_eq_some ha
    exact .neg_add
  simp only [Option.orElse_eq_orElse, Option.orElse_eq_or, Option.or_eq_some_iff,
    Option.bind_eq_some_iff, Prod.exists, Option.ite_none_right_eq_some, Option.some.injEq] at h
  rcases h with ⟨a, c, hx, he, rfl⟩ | ⟨-, ⟨a, c, hy, he, rfl⟩ | ⟨-, ⟨a, ha, c, hc, he, rfl⟩ |
    ⟨-, ⟨s, hs, c, hc, he, rfl⟩ | ⟨-, c, hc, s, hs, he, rfl⟩⟩⟩⟩
  · obtain ⟨i, rfl⟩ := Node.difference?_eq_some hx
    exact .sub_add he
  · obtain ⟨i, rfl⟩ := Node.difference?_eq_some hy
    exact .add_sub he
  · exact .add_halves ha hc he
  · obtain ⟨i, j, rfl⟩ := Node.squareOf?_eq_some hs
    obtain ⟨k, l, rfl⟩ := Node.squareOf?_eq_some hc
    exact .sin_add_cos he
  · obtain ⟨i, j, rfl⟩ := Node.squareOf?_eq_some hc
    obtain ⟨k, l, rfl⟩ := Node.squareOf?_eq_some hs
    exact .cos_add_sin he

theorem rewrites_of_sub? (h : b.sub? x y = some g) : Rewrites b (.binary .sub x y) g := by
  unfold sub? at h
  split_ifs at h with hy hx he
  · cases h
    exact .sub_zero hy
  · cases h
    exact .zero_sub hx
  · cases h
    exact .sub_self he
  · obtain ⟨a, ha, rfl⟩ := Option.map_eq_some_iff.1 h
    obtain ⟨i, rfl⟩ := Node.negated?_eq_some ha
    exact .sub_neg

theorem rewrites_of_mul? (h : b.mul? x y = some g) : Rewrites b (.binary .mul x y) g := by
  unfold mul? at h
  split_ifs at h with hzero hx hy hx' hy' he <;> cases h
  · rcases Bool.or_eq_true_iff.1 hzero with hx | hy
    · exact .zero_mul hx
    · exact .mul_zero hy
  · exact .one_mul hx
  · exact .mul_one hy
  · exact .negOne_mul hx'
  · exact .mul_negOne hy'
  · exact .mul_self he

theorem rewrites_of_binaryRule? {op : Binary} (h : b.binaryRule? op x y = some g) :
    Rewrites b (.binary op x y) g := by
  cases op with
  | add => exact rewrites_of_add? h
  | sub => exact rewrites_of_sub? h
  | mul => exact rewrites_of_mul? h
  | div =>
    obtain ⟨hy, h⟩ := Option.ite_none_right_eq_some.1 h
    cases h
    exact .div_one hy
  | constpow =>
    obtain ⟨hy, h⟩ := Option.ite_none_right_eq_some.1 h
    cases h
    exact .constpow_one hy
  | pow =>
    obtain ⟨hy, h⟩ := Option.ite_none_right_eq_some.1 h
    cases h
    exact .pow_const hy
  | fmin =>
    obtain ⟨he, h⟩ := Option.ite_none_right_eq_some.1 h
    cases h
    exact .fmin_self he
  | fmax =>
    obtain ⟨he, h⟩ := Option.ite_none_right_eq_some.1 h
    cases h
    exact .fmax_self he
  | _ => cases h

theorem rewrites_of_unaryRule? {u : Unary} (h : unaryRule? u x = some g) :
    Rewrites b (.unary u x) g := by
  cases u with
  | neg =>
    obtain ⟨a, ha, rfl⟩ := Option.map_eq_some_iff.1 h
    obtain ⟨i, rfl⟩ := Node.negated?_eq_some ha
    exact .neg_neg
  | _ => cases h

/-- A step folds constants, or else applies a rule. -/
theorem step_cases (h : b.step f = some g) :
    (∃ v, fold? f = some v ∧ g = .const v) ∨ fold? f = none ∧ Rewrites b f g := by
  unfold step at h
  split at h
  · next v hv =>
    cases h
    exact Or.inl ⟨v, hv, rfl⟩
  · next hf =>
    refine Or.inr ⟨hf, ?_⟩
    cases f with
    | unary u x => exact rewrites_of_unaryRule? h
    | binary op x y => exact rewrites_of_binaryRule? h
    | _ => cases h

theorem fold?_of_step_eq_none (h : b.step f = none) : fold? f = none := by
  unfold step at h
  split at h
  · cases h
  · assumption

/-! ## Settling -/

theorem settle_of_step (h : b.step f = some g) : b.settle f = b.settle g := by
  rw [settle]
  split
  · next g' hg =>
    rw [h] at hg
    cases hg
    rfl
  · next hg =>
    rw [h] at hg
    cases hg

theorem settle_of_step_eq_none (h : b.step f = none) : b.settle f = f := by
  rw [settle]
  split
  · next g' hg =>
    rw [h] at hg
    cases hg
  · rfl

/-- What every step keeps holds of the settled form, to which no step applies. -/
theorem settle_induction {P : Form K → Prop}
    (hP : ∀ {f g}, b.step f = some g → P f → P g) (f : Form K) (hf : P f) :
    P (b.settle f) ∧ b.step (b.settle f) = none := by
  cases h : b.step f with
  | none =>
    rw [settle_of_step_eq_none h]
    exact ⟨hf, h⟩
  | some g =>
    rw [settle_of_step h]
    exact settle_induction hP g (hP h hf)
termination_by f.weight
decreasing_by exact weight_step_lt b h

theorem settle_of_fold? {v : K} (h : fold? f = some v) : b.settle f = .const v := by
  have hstep : b.step f = some (.const v) := by
    simp only [step, h]
  rw [settle_of_step hstep, settle_of_step_eq_none rfl]

end Builder

/-! ## What a form is made of -/

omit [Scalar K] in
theorem Node.mem_operands_of_halved? [Scalar K] {x a : Node K} (h : x.halved? = some a) :
    a ∈ x.operands := by
  unfold halved? at h
  repeat' split at h
  all_goals first | cases h; simp [operands] | cases h

/-- The rules only use operands, and operands of operands. -/
theorem Rewrites.operands_inherit {b : Builder} {f g : Form K} (h : Rewrites b f g)
    {P : Node K → Prop} (hP : ∀ n, P n → ∀ x ∈ n.operands, P x) (hf : ∀ x ∈ f.operands, P x) :
    ∀ x ∈ g.operands, P x := by
  have hhalf : ∀ {x a : Node K}, x.halved? = some a → P x → P a := fun h hx =>
    hP _ hx _ (Node.mem_operands_of_halved? h)
  have hunary : ∀ {i u a}, P (.unary i u a) → P a := fun hn => hP _ hn _ (by simp [Node.operands])
  have hleft : ∀ {i op a c}, P (.binary i op a c) → P a := fun hn =>
    hP _ hn _ (by simp [Node.operands])
  cases h <;> grind [Form.operands]

/-- What the operands of a form have and pass on to their operands, the operands of the settled form
have. -/
theorem Builder.operands_settle {b : Builder} {P : Node K → Prop}
    (hP : ∀ n, P n → ∀ x ∈ n.operands, P x) {f : Form K} (hf : ∀ x ∈ f.operands, P x) :
    (∀ x ∈ (b.settle f).operands, P x) ∧ b.step (b.settle f) = none := by
  refine settle_induction (P := fun f => ∀ x ∈ f.operands, P x) ?_ f hf
  intro f g h hf
  rcases step_cases h with ⟨v, -, rfl⟩ | ⟨-, h⟩
  · simp [Form.operands]
  · exact h.operands_inherit hP hf

end Tangent
