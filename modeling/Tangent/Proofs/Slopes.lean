import Mathlib
import Tangent.Catalog.Slopes
import Tangent.Numeric.Double
import Tangent.Proofs.Model

/-!
# Derivative rules as straight-line programs

The derivative rules are written over any algebra. Run over `recorder`, which only notes what it is
asked for, a rule gives the list of its operations (`Unary.record`, `Binary.record`). Over any other
algebra the rule is that list, run from left to right (`Unary.slope_eq`, `Binary.slopes_eq`),
so a fact about one operation becomes a fact about all rules by induction on a list.

The first such fact : over nodes, a rule makes nodes whose values are what the rule gives over
numbers (`Heap.ensures_slope`, `Heap.ensures_slopes`).
-/

set_option linter.unusedSectionVars false

namespace Tangent

/-! ## Recording -/

/-- An operation of a derivative rule, on registers. -/
inductive SlopeOp
  | literal (l : Literal)
  | unary (u : Unary) (i : Nat)
  | binary (op : Binary) (i j : Nat)

/-- The algebra that notes the operations. Its elements are registers : the first three hold the
operands and the value of the operation, and every operation writes to a register of its own. -/
def recorder : Algebra (StateM (List SlopeOp)) Nat where
  literal l := modifyGet fun ops => (ops.length + 3, ops ++ [.literal l])
  unary u i := modifyGet fun ops => (ops.length + 3, ops ++ [.unary u i])
  binary op i j := modifyGet fun ops => (ops.length + 3, ops ++ [.binary op i j])

/-- The operations of the derivative, and the register that holds it. -/
def Unary.record (u : Unary) : Nat × List SlopeOp :=
  u.slope recorder 0 2 []

/-- The operations of the partial derivatives, and the registers that hold them. -/
def Binary.record (op : Binary) : (Nat × Nat) × List SlopeOp :=
  op.slopes recorder 0 1 2 []

namespace SlopeOp

variable {m : Type → Type} [Monad m] {E : Type}

/-- One operation, on registers that read as `e` where there is none. -/
def run (A : Algebra m E) (e : E) (w : List E) : SlopeOp → m E
  | literal l => A.literal l
  | unary u i => A.unary u (w.getD i e)
  | binary op i j => A.binary op (w.getD i e) (w.getD j e)

/-- Operations, one after the other. -/
def runAll (A : Algebra m E) (e : E) : List SlopeOp → List E → m (List E)
  | [], w => pure w
  | op :: ops, w => do runAll A e ops (w ++ [← op.run A e w])

end SlopeOp

section Recorded

variable {m : Type → Type} [Monad m] [LawfulMonad m] {E : Type}

/-- The derivative of a unary operation is its recorded program. -/
theorem Unary.slope_eq (A : Algebra m E) (u : Unary) (x f : E) :
    u.slope A x f = do
      let w ← SlopeOp.runAll A x u.record.2 [x, x, f]
      return w.getD u.record.1 x := by
  cases u <;> simp [slope, record, recorder, modifyGet, MonadStateOf.modifyGet, StateT.modifyGet,
    bind, StateT.bind, pure, StateT.pure] <;> simp [SlopeOp.runAll, SlopeOp.run]

/-- The partial derivatives of a binary operation are its recorded program. -/
theorem Binary.slopes_eq (A : Algebra m E) (op : Binary) (x y f : E) :
    op.slopes A x y f = do
      let w ← SlopeOp.runAll A x op.record.2 [x, y, f]
      return (w.getD op.record.1.1 x, w.getD op.record.1.2 x) := by
  cases op <;> simp [slopes, record, recorder, modifyGet, MonadStateOf.modifyGet, StateT.modifyGet,
    bind, StateT.bind, pure, StateT.pure] <;> simp [SlopeOp.runAll, SlopeOp.run]

end Recorded

/-- Registers that go together, read at one place. -/
theorem forall₂_getD {α β : Type} {R : α → β → Prop} {as : List α} {bs : List β}
    (h : List.Forall₂ R as bs) {a : α} {b : β} (hab : R a b) (i : Nat) :
    R (as.getD i a) (bs.getD i b) := by
  induction h generalizing i with
  | nil => exact hab
  | cons h _ ih =>
    cases i with
    | zero => exact h
    | succ i => exact ih i

/-! ## Values -/

/-- Scalars in which the identities of the simplifier hold. -/
class Scalar.Lawful (R : Type) [Scalar R] : Prop extends Scalar.Faithful R where
  lawful : (Model.self R).Lawful

variable {R : Type} [Scalar R]

/-- The value of a node, where `env` gives the value of each symbol by its number. -/
def Node.eval (env : Nat → R) (n : Node R) : R :=
  (Model.self R).value env n

/-- The derivative as a number. -/
def Unary.slopeAt (u : Unary) (x f : R) : R :=
  u.slope (m := Id) (Scalar.algebra R) x f

/-- The partial derivatives as numbers. -/
def Binary.slopesAt (op : Binary) (x y f : R) : R × R :=
  op.slopes (m := Id) (Scalar.algebra R) x y f

namespace Opcode

/-! An operation is found by its number. -/

theorem eval?_unary (u : Unary) (x y : R) :
    (Op.unary u : Opcode).eval? x y = some (Scalar.unary u x) := by
  rw [eval?, op?_ofOp]

theorem eval?_binary (op : Binary) (x y : R) :
    (Op.binary op : Opcode).eval? x y = some (Scalar.binary op x y) := by
  rw [eval?, op?_ofOp]

theorem slopes_unary (u : Unary) (x y f : R) :
    (Op.unary u : Opcode).slopes x y f = (u.slopeAt x f, Scalar.zero) := by
  rw [slopes, op?_ofOp]
  rfl

theorem slopes_binary (op : Binary) (x y f : R) :
    (Op.binary op : Opcode).slopes x y f = op.slopesAt x y f := by
  rw [slopes, op?_ofOp]
  rfl

end Opcode

namespace Heap

variable (env : Nat → R) {p : Heap R}

theorem eval_of_value? {n : Node R} {v : R} (h : n.value? = some v) : n.eval env = v := by
  cases n <;> simp_all [Node.value?, Node.eval, Model.value, Model.self]

/-- Computing with constants is computing with their values. -/
theorem exactOn_self (f : Form R) : (Model.self R).ExactOn env f := by
  intro v hv
  cases f with
  | unary u x =>
    obtain ⟨a, ha, rfl⟩ := Option.map_eq_some_iff.1 hv
    exact congrArg (Scalar.unary u) (eval_of_value? env ha).symm
  | binary op x y =>
    by_cases hop : op = .printme
    · subst hop
      cases hv
    · rw [fold?_binary hop] at hv
      obtain ⟨a, ha, hv⟩ := Option.bind_eq_some_iff.1 hv
      obtain ⟨c, hc, rfl⟩ := Option.map_eq_some_iff.1 hv
      exact congrArg₂ (Scalar.binary op) (eval_of_value? env ha).symm (eval_of_value? env hc).symm
  | _ => cases hv

theorem getD_mem {w : List (Node R)} (hw : ∀ n ∈ w, n ∈ p) {e : Node R} (he : e ∈ p) (i : Nat) :
    w.getD i e ∈ p := by
  rw [List.getD_eq_getElem?_getD]
  cases h : w[i]? with
  | none => exact he
  | some n => exact hw n (List.mem_of_getElem? h)

theorem eval_getD (w : List (Node R)) (e : Node R) (i : Nat) :
    (w.getD i e).eval env = (w.map (·.eval env)).getD i (e.eval env) := by
  simp only [List.getD_eq_getElem?_getD, List.getElem?_map]
  cases w[i]? <;> rfl

variable [Scalar.Lawful R] (b : Builder)

theorem ensures_literal (l : Literal) :
    p.Ensures ((b.algebra R).literal l) fun q n => n ∈ q ∧ n.eval env = Scalar.literal l :=
  (ensures_newConst _).imp fun _ _ _ hn => ⟨hn.1, eval_of_value? env hn.2⟩

theorem ensures_unary (u : Unary) {x : Node R} (hx : x ∈ p) :
    p.Ensures (b.unary u x) fun q n => n ∈ q ∧ n.eval env = Scalar.unary u (x.eval env) :=
  Scalar.Lawful.lawful.ensures_make env b (by simpa [Form.operands] using hx) (exactOn_self env _)

theorem ensures_binary (op : Binary) {x y : Node R} (hx : x ∈ p) (hy : y ∈ p) :
    p.Ensures (b.binary op x y) fun q n =>
      n ∈ q ∧ n.eval env = Scalar.binary op (x.eval env) (y.eval env) :=
  Scalar.Lawful.lawful.ensures_make env b (Form.forall_operands_binary.2 ⟨hx, hy⟩)
    (exactOn_self env _)

/-! ## Rules over nodes and over numbers -/

theorem ensures_run {w : List (Node R)} (hw : ∀ n ∈ w, n ∈ p) {e : Node R} (he : e ∈ p)
    (op : SlopeOp) :
    p.Ensures (op.run (b.algebra R) e w) fun q n => n ∈ q ∧ n.eval env =
      op.run (m := Id) (Scalar.algebra R) (e.eval env) (w.map (·.eval env)) := by
  cases op with
  | literal l => exact ensures_literal env b l
  | unary u i =>
    refine (ensures_unary env b u (getD_mem hw he i)).imp fun q n _ hn => ⟨hn.1, ?_⟩
    rw [hn.2, eval_getD]
    rfl
  | binary op i j =>
    refine (ensures_binary env b op (getD_mem hw he i) (getD_mem hw he j)).imp
      fun q n _ hn => ⟨hn.1, ?_⟩
    rw [hn.2, eval_getD, eval_getD]
    rfl

/-- A program over nodes computes what it computes over numbers. -/
theorem ensures_runAll {e : Node R} :
    ∀ (ops : List SlopeOp) {p : Heap R} {w : List (Node R)}, (∀ n ∈ w, n ∈ p) → e ∈ p →
      p.Ensures (SlopeOp.runAll (b.algebra R) e ops w) fun q w' =>
        (∀ n ∈ w', n ∈ q) ∧ w'.map (·.eval env) =
          SlopeOp.runAll (m := Id) (Scalar.algebra R) (e.eval env) ops (w.map (·.eval env))
  | [], p, w, hw, _ => .pure ⟨hw, rfl⟩
  | op :: ops, p, w, hw, he => by
    refine (ensures_run env b hw he op).bind fun q n hpq hn => ?_
    have hwn : ∀ m ∈ w ++ [n], m ∈ q := by
      intro m hm
      rcases List.mem_append.1 hm with hm | hm
      · exact mem_of_le hpq (hw m hm)
      · exact List.mem_singleton.1 hm ▸ hn.1
    refine (ensures_runAll ops hwn (mem_of_le hpq he)).imp fun r w' _ hw' => ⟨hw'.1, ?_⟩
    rw [hw'.2, List.map_append, List.map_singleton, hn.2]
    rfl

/-- The derivative of a unary operation over nodes has the value that it has over numbers. -/
theorem ensures_slope (u : Unary) {x f : Node R} (hx : x ∈ p) (hf : f ∈ p) :
    p.Ensures (u.slope (b.algebra R) x f) fun q d =>
      d ∈ q ∧ d.eval env = u.slopeAt (x.eval env) (f.eval env) := by
  rw [Unary.slope_eq, Unary.slopeAt, Unary.slope_eq]
  refine (ensures_runAll env b u.record.2 (w := [x, x, f]) (by simp [hx, hf]) hx).bind
    fun q w hpq hw => .pure ⟨getD_mem hw.1 (mem_of_le hpq hx) _, ?_⟩
  rw [eval_getD, hw.2]
  rfl

/-- The partial derivatives of a binary operation over nodes have the values that they have over
numbers. -/
theorem ensures_slopes (op : Binary) {x y f : Node R} (hx : x ∈ p) (hy : y ∈ p) (hf : f ∈ p) :
    p.Ensures (op.slopes (b.algebra R) x y f) fun q d =>
      (d.1 ∈ q ∧ d.2 ∈ q) ∧
        (d.1.eval env, d.2.eval env) = op.slopesAt (x.eval env) (y.eval env) (f.eval env) := by
  rw [Binary.slopes_eq, Binary.slopesAt, Binary.slopes_eq]
  refine (ensures_runAll env b op.record.2 (w := [x, y, f]) (by simp [hx, hy, hf]) hx).bind
    fun q w hpq hw => .pure ⟨⟨getD_mem hw.1 (mem_of_le hpq hx) _,
      getD_mem hw.1 (mem_of_le hpq hx) _⟩, ?_⟩
  rw [eval_getD, eval_getD, hw.2]
  rfl

end Heap

end Tangent
