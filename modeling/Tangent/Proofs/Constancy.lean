import Mathlib
import Tangent.Proofs.Heap
import Tangent.Proofs.Slopes

/-!
# Which derivatives are constants

An operation on constants is folded, and a few rules give constants for other operations. A form of
which it is clear beforehand that it does not settle to a constant is `Form.Unfixed`. What is known
about a node is its `Kind`; kinds form an algebra, in which a derivative rule can be run, and the
rule over nodes makes nodes of the kinds that the rule over kinds gives
(`Heap.ensures_slope_is`, `Heap.ensures_slopes_is`).

The rule for remainders needs more : the difference of a remainder and its dividend is no constant,
because the two expressions are not of one size (`Heap.value?_settle_gap`).
-/

set_option linter.unusedSectionVars false

namespace Tangent

variable {K : Type} [Scalar K]

/-- The value of a form that stands for a constant. -/
def Form.value? : Form K → Option K
  | .node n => n.value?
  | .const v => some v
  | _ => none

/-- No rule leads from the form to a constant : an operand is no constant, and of a sum or a
difference exactly one operand is. -/
def Form.Unfixed : Form K → Prop
  | .node n => n.value? = none
  | .const _ => False
  | .unary _ x => x.value? = none
  | .binary .mul _ _ => False
  | .binary .add x y | .binary .sub x y => x.value? = none ↔ y.value? ≠ none
  | .binary _ x y => x.value? = none ∨ y.value? = none

namespace Node

theorem value?_eq_none_iff_op {n : Node K} : n.value? = none ↔ n.op ≠ .const := by
  cases n <;> simp [value?, op]

theorem isZero_iff {n : Node K} : n.isZero ↔ ∃ v, n.value? = some v ∧ Scalar.isZero v := by
  cases h : n.value? <;> simp [isZero, isLiteral, isValue, h, Scalar.isZero]

theorem value?_eq_none_of_halved? {x a : Node K} (h : x.halved? = some a) : x.value? = none := by
  cases x with
  | const i v => cases h
  | _ => rfl

end Node

namespace Heap

variable {p : Heap K} {b : Builder}

/-! ## Equal nodes -/

/-- Nodes that are equal have one operation and one size. -/
theorem op_and_size_of_equalUpTo :
    ∀ {depth : Nat} {m n : Node K}, m ∈ p → n ∈ p → m.equalUpTo depth n →
      m.op = n.op ∧ m.size = n.size
  | 0, m, n, hm, hn, h => by
    obtain rfl := p.eq_of_id hm hn (by simpa [Node.equalUpTo, Node.same] using h)
    exact ⟨rfl, rfl⟩
  | depth + 1, m, n, hm, hn, h => by
    rcases Node.equalUpTo_succ_cases h with he | ⟨i, j, v, w, rfl, rfl, -⟩ |
      ⟨i, j, u, x, x', rfl, rfl, hx⟩ | ⟨i, j, op, x, y, x', y', rfl, rfl, hxy⟩
    · obtain rfl := p.eq_of_id hm hn he
      exact ⟨rfl, rfl⟩
    · exact ⟨rfl, rfl⟩
    · have hsize := (op_and_size_of_equalUpTo (mem_of_unary hm) (mem_of_unary hn) hx).2
      exact ⟨rfl, by simp only [Node.size, hsize]⟩
    · refine ⟨rfl, ?_⟩
      rcases hxy with ⟨hx, hy⟩ | ⟨-, hx, hy⟩
      · have hxs := (op_and_size_of_equalUpTo (mem_left hm) (mem_left hn) hx).2
        have hys := (op_and_size_of_equalUpTo (mem_right hm) (mem_right hn) hy).2
        simp only [Node.size, hxs, hys]
      · have hxs := (op_and_size_of_equalUpTo (mem_left hm) (mem_right hn) hx).2
        have hys := (op_and_size_of_equalUpTo (mem_right hm) (mem_left hn) hy).2
        simp only [Node.size, hxs, hys]
        omega

theorem value?_eq_none_iff_of_equal {x y : Node K} (hx : x ∈ p) (hy : y ∈ p)
    (h : b.equal x y) : x.value? = none ↔ y.value? = none := by
  rw [Node.value?_eq_none_iff_op, Node.value?_eq_none_iff_op, (op_and_size_of_equalUpTo hx hy h).1]

/-! ## Forms that do not settle to a constant -/

theorem value?_of_neg {i : Nat} {a : Node K} (h : .unary i .neg a ∈ p) : a.value? = none :=
  fold?_unary_eq_none.1 (p.unfolded h)

/-- Of a difference that equals a constant in its second operand, the first is no constant. -/
theorem value?_of_sub {i : Nat} {a c y : Node K} (h : .binary i .sub a c ∈ p) (hy : y ∈ p)
    (he : b.equal c y) (hv : y.value? ≠ none) : a.value? = none := by
  have hfold := (fold?_binary_eq_none (by decide)).1 (p.unfolded h)
  exact hfold.resolve_right fun hc => hv ((value?_eq_none_iff_of_equal (mem_right h) hy he).1 hc)

theorem fold?_of_unfixed {f : Form K} (h : f.Unfixed) : Builder.fold? f = none := by
  cases f with
  | node n => rfl
  | const v => rfl
  | unary u x => exact fold?_unary_eq_none.2 h
  | binary op x y =>
    by_cases hop : op = .printme
    · subst hop
      rfl
    · refine (fold?_binary_eq_none hop).2 ?_
      cases op <;> simp only [Form.Unfixed] at h <;> tauto

theorem unfixed_of_rewrites {f g : Form K} (h : Rewrites b f g) (hf : ∀ x ∈ f.operands, x ∈ p)
    (hu : f.Unfixed) : g.Unfixed := by
  have hlit : ∀ {x : Node K} {l : Literal}, x.isLiteral l → x.value? ≠ none := fun h =>
    value?_ne_none_of_isLiteral h
  cases h with
  | zero_add hx => exact not_not.1 fun hy => hlit hx (hu.2 hy)
  | add_zero hy => exact hu.2 (hlit hy)
  | add_neg =>
    obtain ⟨hx, hy⟩ := Form.forall_operands_binary.1 hf
    exact ⟨fun h => absurd rfl (hu.1 h), fun h => absurd (value?_of_neg hy) h⟩
  | neg_add =>
    obtain ⟨hx, hy⟩ := Form.forall_operands_binary.1 hf
    exact ⟨fun h => absurd h (hu.1 rfl), fun h => absurd (value?_of_neg hx) h⟩
  | sub_add he =>
    obtain ⟨hx, hy⟩ := Form.forall_operands_binary.1 hf
    exact value?_of_sub hx hy he (hu.1 rfl)
  | add_sub he =>
    obtain ⟨hx, hy⟩ := Form.forall_operands_binary.1 hf
    exact value?_of_sub hy hx he fun h => absurd rfl (hu.1 h)
  | add_halves hx hy _ =>
    exact absurd (Node.value?_eq_none_of_halved? hy) (hu.1 (Node.value?_eq_none_of_halved? hx))
  | sin_add_cos _ => exact absurd rfl (hu.1 rfl)
  | cos_add_sin _ => exact absurd rfl (hu.1 rfl)
  | sub_zero hy => exact hu.2 (hlit hy)
  | zero_sub hx => exact not_not.1 fun hy => hlit hx (hu.2 hy)
  | sub_self he =>
    obtain ⟨hx, hy⟩ := Form.forall_operands_binary.1 hf
    have hiff := value?_eq_none_iff_of_equal hx hy he
    have hu : _ ↔ _ := hu
    tauto
  | sub_neg =>
    obtain ⟨hx, hy⟩ := Form.forall_operands_binary.1 hf
    exact ⟨fun h => absurd rfl (hu.1 h), fun h => absurd (value?_of_neg hy) h⟩
  | div_one hy => exact hu.resolve_right (hlit hy)
  | constpow_one hy => exact hu.resolve_right (hlit hy)
  | pow_const _ => exact hu
  | fmin_self he | fmax_self he =>
    obtain ⟨hx, hy⟩ := Form.forall_operands_binary.1 hf
    exact value?_eq_none_of_equal hx hy he hu
  | neg_neg => exact value?_of_neg (hf _ List.mem_cons_self)
  | _ => cases hu

theorem value?_settle_of_unfixed {f : Form K} (hf : ∀ x ∈ f.operands, x ∈ p) (hu : f.Unfixed) :
    (b.settle f).value? = none := by
  have h := Builder.settle_induction (b := b)
    (P := fun f => (∀ x ∈ f.operands, x ∈ p) ∧ f.Unfixed) ?_ f ⟨hf, hu⟩
  · obtain ⟨⟨-, hu⟩, -⟩ := h
    generalize b.settle f = g at hu ⊢
    cases g with
    | node n => exact hu
    | const v => cases hu
    | _ => rfl
  · rintro f g hstep ⟨hf, hu⟩
    rcases Builder.step_cases hstep with ⟨v, hv, -⟩ | ⟨-, h⟩
    · rw [fold?_of_unfixed hu] at hv
      cases hv
    · exact ⟨h.operands_inherit (fun _ hn _ hx => p.operands_mem hn hx) hf,
        unfixed_of_rewrites h hf hu⟩

/-- A product that is not folded is no constant, or zero. -/
theorem value?_settle_mul {x y : Node K} (hx : x ∈ p) (hy : y ∈ p)
    (h : x.value? = none ∨ y.value? = none) :
    (b.settle (.binary .mul x y)).value? = none ∨
      (b.settle (.binary .mul x y)).value? = some (Scalar.literal .zero) := by
  have hops : ∀ z ∈ (Form.binary .mul x y).operands, z ∈ p :=
    Form.forall_operands_binary.2 ⟨hx, hy⟩
  cases hstep : b.step (.binary .mul x y) with
  | none =>
    rw [Builder.settle_of_step_eq_none hstep]
    exact Or.inl rfl
  | some g =>
    rw [Builder.settle_of_step hstep]
    rcases Builder.step_cases hstep with ⟨v, hv, -⟩ | ⟨-, hg⟩
    · rw [(fold?_binary_eq_none (by decide)).2 h] at hv
      cases hv
    · have hgops := hg.operands_inherit (fun _ hn _ hz => p.operands_mem hn hz) hops
      have hlit : ∀ {x : Node K} {l : Literal}, x.isLiteral l → x.value? ≠ none := fun h =>
        value?_ne_none_of_isLiteral h
      cases hg with
      | zero_mul _ =>
        rw [Builder.settle_of_step_eq_none rfl]
        exact Or.inr rfl
      | mul_zero _ =>
        rw [Builder.settle_of_step_eq_none rfl]
        exact Or.inr rfl
      | one_mul hx' => exact Or.inl (value?_settle_of_unfixed hgops (h.resolve_left (hlit hx')))
      | mul_one hy' => exact Or.inl (value?_settle_of_unfixed hgops (h.resolve_right (hlit hy')))
      | negOne_mul hx' =>
        exact Or.inl (value?_settle_of_unfixed hgops (h.resolve_left (hlit hx')))
      | mul_negOne hy' =>
        exact Or.inl (value?_settle_of_unfixed hgops (h.resolve_right (hlit hy')))
      | mul_self he =>
        exact Or.inl (value?_settle_of_unfixed hgops (value?_eq_none_of_equal hx hy he h))

/-- The node that is made is a constant exactly if the form settles to one. -/
theorem ensures_make_value? (b : Builder) {f : Form K} (hf : ∀ x ∈ f.operands, x ∈ p) :
    p.Ensures (b.make f) fun q n => n ∈ q ∧ n.value? = (b.settle f).value? := by
  refine (ensures_make b hf).imp fun q n _ hn => ⟨hn.1, ?_⟩
  rcases hn.2 with hs | hs
  · rw [hs]
    rfl
  · rw [hs]
    cases n <;> rfl

/-! ## A remainder and its dividend -/

/-- The forms that the difference of a node and a smaller one may become. -/
inductive Gap (f : Node K) : Form K → Prop
  | node {n : Node K} : n.value? = none → Gap f (.node n)
  | sub {a : Node K} : a.size < f.size → a.value? = none → Gap f (.binary .sub f a)
  | add {a : Node K} : a.size < f.size → a.value? = none → Gap f (.binary .add f a)

theorem gap_of_rewrites {i : Nat} {x y : Node K} {f g : Form K} (h : Rewrites b f g)
    (hf : ∀ z ∈ f.operands, z ∈ p) (hgap : Gap (.binary i .fmod x y) f) :
    Gap (.binary i .fmod x y) g := by
  have hlit : ∀ {x : Node K} {l : Literal}, x.isLiteral l → x.value? ≠ none := fun h =>
    value?_ne_none_of_isLiteral h
  cases hgap with
  | node hn => cases h
  | sub hsize hv =>
    obtain ⟨hx, hy⟩ := Form.forall_operands_binary.1 hf
    cases h with
    | sub_zero hz => exact absurd hv (hlit hz)
    | zero_sub hz => exact absurd rfl (hlit hz)
    | sub_self he => exact absurd (op_and_size_of_equalUpTo hx hy he).2 hsize.ne'
    | sub_neg => exact .add (by simp only [Node.size] at hsize ⊢; omega) (value?_of_neg hy)
  | add hsize hv =>
    obtain ⟨hx, hy⟩ := Form.forall_operands_binary.1 hf
    cases h with
    | zero_add hz => exact absurd rfl (hlit hz)
    | add_zero hz => exact absurd hv (hlit hz)
    | add_neg => exact .sub (by simp only [Node.size] at hsize ⊢; omega) (value?_of_neg hy)
    | add_sub he =>
      have hsize' := (op_and_size_of_equalUpTo (mem_right hy) hx he).2
      simp only [Node.size] at hsize hsize'
      omega
    | add_halves hh _ _ => cases hh

/-- The difference of a remainder and its dividend is no constant. -/
theorem value?_settle_gap {i : Nat} {x y : Node K} (h : .binary i .fmod x y ∈ p)
    (hx : x.value? = none) :
    (b.settle (.binary .sub (.binary i .fmod x y) x)).value? = none := by
  have hstep := Builder.settle_induction (b := b)
    (P := fun f => (∀ z ∈ f.operands, z ∈ p) ∧ Gap (.binary i .fmod x y) f) ?_
    (.binary .sub (.binary i .fmod x y) x)
    ⟨Form.forall_operands_binary.2 ⟨h, mem_left h⟩,
      .sub (by simp only [Node.size]; omega) hx⟩
  · obtain ⟨⟨-, hgap⟩, -⟩ := hstep
    generalize b.settle (.binary .sub (.binary i .fmod x y) x) = g at hgap ⊢
    cases hgap with
    | node hn => exact hn
    | _ => rfl
  · rintro f g hstep ⟨hf, hgap⟩
    rcases Builder.step_cases hstep with ⟨v, hv, -⟩ | ⟨-, hg⟩
    · cases hgap <;> simp [Builder.fold?, Node.value?] at hv
    · exact ⟨hg.operands_inherit (fun _ hn _ hz => p.operands_mem hn hz) hf,
        gap_of_rewrites hg hf hgap⟩

end Heap

/-! ## Kinds -/

/-- What is known about a node : that it is a certain constant, that it is a constant, that it is
none, that it is none unless it is zero, or nothing. -/
inductive Kind
  | literal (l : Literal)
  | const
  | expr
  | exprOrZero
  | any
deriving DecidableEq

namespace Kind

def isConst : Kind → Bool
  | literal _ | const => true
  | _ => false

/-- What is known about a unary operation. -/
def unary : Kind → Kind
  | literal _ | const => .const
  | expr => .expr
  | _ => .any

/-- What is known about a binary operation of which an operand is no constant. -/
def mixed : Binary → Kind → Kind → Kind
  | .mul, _, _ => .exprOrZero
  | .add, k, l | .sub, k, l => if k.isConst || l.isConst then .expr else .any
  | _, _, _ => .expr

/-- What is known about a binary operation. -/
def binary (op : Binary) (k l : Kind) : Kind :=
  if op = .printme then .any
  else if k.isConst && l.isConst then .const
  else if k = .expr || l = .expr then mixed op k l
  else .any

/-- Kinds as an algebra. -/
def algebra : Algebra Id Kind where
  literal := .literal
  unary _ := unary
  binary := binary

end Kind

/-- The node is of the kind. -/
def Node.Is (n : Node K) : Kind → Prop
  | .literal l => n.value? = some (Scalar.literal l)
  | .const => n.value? ≠ none
  | .expr => n.value? = none
  | .exprOrZero => n.value? = none ∨ n.value? = some (Scalar.literal .zero)
  | .any => True

namespace Heap

variable {p : Heap K} (b : Builder) {k l : Kind} {x y : Node K}

theorem value?_ne_none_of_is (h : x.Is k) (hk : k.isConst) : x.value? ≠ none := by
  cases k with
  | literal l => exact fun hx => Option.some_ne_none _ (Eq.trans (Eq.symm h) hx)
  | const => exact h
  | _ => cases hk

/-- A unary operation is a constant exactly if its operand is one. -/
theorem ensures_unary_value? (u : Unary) (hx : x ∈ p) :
    p.Ensures (b.unary u x) fun q n => n ∈ q ∧ n.value? = x.value?.map (Scalar.unary u) := by
  have hops : ∀ z ∈ (Form.unary u x).operands, z ∈ p := by simpa [Form.operands] using hx
  cases hv : x.value? with
  | none =>
    exact (ensures_make_value? b hops).imp fun q n _ hn =>
      ⟨hn.1, hn.2.trans (value?_settle_of_unfixed hops hv)⟩
  | some v => exact ensures_make_of_fold? b (by simp [Builder.fold?, hv])

/-- Where no rule gives a constant, an operation is one exactly if it is folded. -/
theorem ensures_binary_value? (op : Binary) (hop : op ∉ [.add, .sub, .mul, .printme])
    (hx : x ∈ p) (hy : y ∈ p) :
    p.Ensures (b.binary op x y) fun q n =>
      n ∈ q ∧ n.value? = x.value?.bind fun v => y.value?.map (Scalar.binary op v) := by
  have hops : ∀ z ∈ (Form.binary op x y).operands, z ∈ p :=
    Form.forall_operands_binary.2 ⟨hx, hy⟩
  have hprint : op ≠ .printme := fun h => hop (by simp [h])
  rw [← fold?_binary hprint]
  cases hfold : Builder.fold? (.binary op x y) with
  | none =>
    have hunfixed : (Form.binary op x y).Unfixed := by
      have hvalue := (fold?_binary_eq_none hprint).1 hfold
      cases op <;> first | exact hvalue | exact absurd (by decide) hop
    exact (ensures_make_value? b hops).imp fun q n _ hn =>
      ⟨hn.1, hn.2.trans (value?_settle_of_unfixed hops hunfixed)⟩
  | some v => exact ensures_make_of_fold? b hfold

theorem ensures_unary_is (u : Unary) (hx : x ∈ p) (hk : x.Is k) :
    p.Ensures (b.unary u x) fun q n => n ∈ q ∧ n.Is k.unary := by
  refine (ensures_unary_value? b u hx).imp fun q n _ hn => ⟨hn.1, ?_⟩
  cases k with
  | literal l | const =>
    have hne := value?_ne_none_of_is hk rfl
    exact fun hnone => hne (Option.map_eq_none_iff.1 (hn.2.symm.trans hnone))
  | expr => exact hn.2.trans (Option.map_eq_none_iff.2 hk)
  | _ => trivial

/-- An operation of which an operand is no constant. -/
theorem ensures_mixed_is (op : Binary) (hx : x ∈ p) (hy : y ∈ p) (hk : x.Is k) (hl : y.Is l)
    (h : k = .expr ∨ l = .expr) :
    p.Ensures (b.binary op x y) fun q n => n ∈ q ∧ n.Is (Kind.mixed op k l) := by
  have hops : ∀ z ∈ (Form.binary op x y).operands, z ∈ p :=
    Form.forall_operands_binary.2 ⟨hx, hy⟩
  have hvalue : x.value? = none ∨ y.value? = none :=
    h.imp (fun h => by rw [h] at hk; exact hk) fun h => by rw [h] at hl; exact hl
  have huneven : (k.isConst || l.isConst) → (x.value? = none ↔ y.value? ≠ none) := by
    intro hconst
    rcases h with rfl | rfl
    · exact ⟨fun _ => value?_ne_none_of_is hl (by simpa [Kind.isConst] using hconst), fun _ => hk⟩
    · have hxv := value?_ne_none_of_is hk (by simpa [Kind.isConst] using hconst)
      exact ⟨fun h => absurd h hxv, fun h => absurd hl h⟩
  refine (ensures_make_value? b hops).imp fun q n _ hn => ⟨hn.1, ?_⟩
  have hunfixed : (Form.binary op x y).Unfixed → n.Is .expr := fun hu =>
    hn.2.trans (value?_settle_of_unfixed hops hu)
  cases op with
  | mul =>
    rw [Kind.mixed, Node.Is, hn.2]
    exact value?_settle_mul hx hy hvalue
  | add | sub =>
    rw [Kind.mixed]
    split_ifs with hconst
    · exact hunfixed (huneven hconst)
    · trivial
  | _ => exact hunfixed hvalue

theorem ensures_binary_is (op : Binary) (hx : x ∈ p) (hy : y ∈ p) (hk : x.Is k) (hl : y.Is l) :
    p.Ensures (b.binary op x y) fun q n => n ∈ q ∧ n.Is (Kind.binary op k l) := by
  have hany : p.Ensures (b.binary op x y) fun q n => n ∈ q ∧ n.Is .any :=
    (ensures_make b (Form.forall_operands_binary.2 ⟨hx, hy⟩)).imp fun _ _ _ hn => ⟨hn.1, trivial⟩
  rw [Kind.binary]
  split_ifs with hop hconst hexpr
  · exact hany
  · rw [Bool.and_eq_true] at hconst
    obtain ⟨v, hv⟩ := Option.ne_none_iff_exists'.1 (value?_ne_none_of_is hk hconst.1)
    obtain ⟨w, hw⟩ := Option.ne_none_iff_exists'.1 (value?_ne_none_of_is hl hconst.2)
    have hfold : Builder.fold? (.binary op x y) = some (Scalar.binary op v w) := by
      rw [fold?_binary hop, hv, hw]
      rfl
    refine (ensures_make_of_fold? b hfold).imp fun q n _ hn => ⟨hn.1, ?_⟩
    exact fun hnone => Option.some_ne_none _ (hn.2.symm.trans hnone)
  · exact ensures_mixed_is b op hx hy hk hl (by simpa using hexpr)
  · exact hany

/-! ## Rules over nodes and over kinds -/

theorem ensures_runAll_is {e : Node K} :
    ∀ (ops : List SlopeOp) {p : Heap K} {w : List (Node K)} {ks : List Kind},
      (∀ n ∈ w, n ∈ p) → e ∈ p → List.Forall₂ Node.Is w ks → e.Is k →
      p.Ensures (SlopeOp.runAll (b.algebra K) e ops w) fun q w' =>
        (∀ n ∈ w', n ∈ q) ∧
          List.Forall₂ Node.Is w' (SlopeOp.runAll (m := Id) Kind.algebra k ops ks)
  | [], p, w, ks, hw, _, hks, _ => .pure ⟨hw, hks⟩
  | op :: ops, p, w, ks, hw, he, hks, hk => by
    have hop : p.Ensures (op.run (b.algebra K) e w) fun q n =>
        n ∈ q ∧ n.Is (op.run (m := Id) Kind.algebra k ks) := by
      cases op with
      | literal l => exact ensures_newConst _
      | unary u i => exact ensures_unary_is b u (getD_mem hw he i) (forall₂_getD hks hk i)
      | binary op i j =>
        exact ensures_binary_is b op (getD_mem hw he i) (getD_mem hw he j) (forall₂_getD hks hk i)
          (forall₂_getD hks hk j)
    refine hop.bind fun q n hpq hn => ?_
    refine ensures_runAll_is ops ?_ (mem_of_le hpq he)
      (List.rel_append hks (.cons hn.2 .nil)) hk
    intro m hm
    rcases List.mem_append.1 hm with hm | hm
    · exact mem_of_le hpq (hw m hm)
    · exact List.mem_singleton.1 hm ▸ hn.1

/-- The derivative of a unary operation over nodes is of the kind that it has over kinds. -/
theorem ensures_slope_is (u : Unary) {f : Node K} {kf : Kind} (hx : x ∈ p) (hf : f ∈ p)
    (hk : x.Is k) (hkf : f.Is kf) :
    p.Ensures (u.slope (b.algebra K) x f) fun q d =>
      d ∈ q ∧ d.Is (u.slope (m := Id) Kind.algebra k kf) := by
  rw [Unary.slope_eq, Unary.slope_eq]
  refine (ensures_runAll_is b u.record.2 (w := [x, x, f]) (by simp [hx, hf]) hx
    (.cons hk (.cons hk (.cons hkf .nil))) hk).bind fun q w hpq hw => .pure ?_
  exact ⟨getD_mem hw.1 (mem_of_le hpq hx) _, forall₂_getD hw.2 hk _⟩

/-- The partial derivatives of a binary operation over nodes are of the kinds that they have over
kinds. -/
theorem ensures_slopes_is (op : Binary) {f : Node K} {kf : Kind} (hx : x ∈ p) (hy : y ∈ p)
    (hf : f ∈ p) (hk : x.Is k) (hl : y.Is l) (hkf : f.Is kf) :
    p.Ensures (op.slopes (b.algebra K) x y f) fun q d => (d.1 ∈ q ∧ d.2 ∈ q) ∧
      d.1.Is (op.slopes (m := Id) Kind.algebra k l kf).1 ∧
      d.2.Is (op.slopes (m := Id) Kind.algebra k l kf).2 := by
  rw [Binary.slopes_eq, Binary.slopes_eq]
  refine (ensures_runAll_is b op.record.2 (w := [x, y, f]) (by simp [hx, hy, hf]) hx
    (.cons hk (.cons hl (.cons hkf .nil))) hk).bind fun q w hpq hw => .pure ?_
  exact ⟨⟨getD_mem hw.1 (mem_of_le hpq hx) _, getD_mem hw.1 (mem_of_le hpq hx) _⟩,
    forall₂_getD hw.2 hk _, forall₂_getD hw.2 hk _⟩

end Heap

end Tangent
