import Mathlib.Data.Set.Defs
import Tangent.Proofs.Rewriting

/-!
# Copies of expressions

The rules of a builder look at operations, at constants and at whether two nodes are one, and at
nothing else. So a builder treats a copy of some nodes as it treats the nodes themselves
(`Copies.step_map`), if the copy keeps symbols, the values of constants, operations and the order of
operands, and two nodes of the copy are one exactly if those that they were copied from are.
-/

namespace Tangent

variable {K : Type}

/-- A form of other nodes. -/
def Form.map (f : Node K → Node K) : Form K → Form K
  | node n => node (f n)
  | const v => const v
  | unary u x => unary u (f x)
  | binary op x y => binary op (f x) (f y)

/-- The second node is a copy of the first, given the copies of operands : a symbol is its own
copy. -/
inductive CopyOf (f : Node K → Node K) : Node K → Node K → Prop
  | const (i j : Nat) (v : K) : CopyOf f (.const i v) (.const j v)
  | symbol (i : Nat) (s : String) : CopyOf f (.symbol i s) (.symbol i s)
  | unary (i j : Nat) (u : Unary) (x : Node K) : CopyOf f (.unary i u x) (.unary j u (f x))
  | binary (i j : Nat) (op : Binary) (x y : Node K) :
      CopyOf f (.binary i op x y) (.binary j op (f x) (f y))

namespace CopyOf

variable {f : Node K → Node K} {x x' : Node K}

theorem op (h : CopyOf f x x') : x'.op = x.op := by
  cases h <;> rfl

theorem operands (h : CopyOf f x x') : x'.operands = x.operands.map f := by
  cases h <;> rfl

theorem value? (h : CopyOf f x x') : x'.value? = x.value? := by
  cases h <;> rfl

theorem negated? (h : CopyOf f x x') : x'.negated? = x.negated?.map f := by
  cases h with
  | unary i j u x => cases u <;> rfl
  | _ => rfl

theorem difference? (h : CopyOf f x x') : x'.difference? = x.difference?.map (Prod.map f f) := by
  cases h with
  | binary i j op x y => cases op <;> rfl
  | _ => rfl

theorem isConst (h : CopyOf f x x') : x'.isConst = x.isConst := by
  rw [Node.isConst, Node.isConst, h.value?]

theorem isLiteral [Scalar K] (h : CopyOf f x x') (l : Literal) :
    x'.isLiteral l = x.isLiteral l := by
  rw [Node.isLiteral, Node.isLiteral, Node.isValue, Node.isValue, h.value?]

theorem isZero [Scalar K] (h : CopyOf f x x') : x'.isZero = x.isZero :=
  h.isLiteral .zero

end CopyOf

/-- Under `f`, the nodes have copies, and two copies are one node exactly if the nodes are. -/
structure Copies (f : Node K → Node K) (nodes : Set (Node K)) : Prop where
  operands_mem : ∀ {n x : Node K}, n ∈ nodes → x ∈ n.operands → x ∈ nodes
  copy : ∀ {n : Node K}, n ∈ nodes → CopyOf f n (f n)
  same : ∀ {m n : Node K}, m ∈ nodes → n ∈ nodes → (f m).same (f n) = m.same n

namespace Copies

variable {f : Node K → Node K} {nodes : Set (Node K)} {x y : Node K}

/-! ## What the rules look at -/

theorem mem_of_unary (h : Copies f nodes) {i : Nat} {u : Unary} (hn : .unary i u x ∈ nodes) :
    x ∈ nodes :=
  h.operands_mem hn (by simp [Node.operands])

theorem mem_left (h : Copies f nodes) {i : Nat} {op : Binary} (hn : .binary i op x y ∈ nodes) :
    x ∈ nodes :=
  h.operands_mem hn (by simp [Node.operands])

theorem mem_right (h : Copies f nodes) {i : Nat} {op : Binary} (hn : .binary i op x y ∈ nodes) :
    y ∈ nodes :=
  h.operands_mem hn (by simp [Node.operands])

theorem squareOf? (h : Copies f nodes) (u : Unary) (hx : x ∈ nodes) :
    (f x).squareOf? u = (x.squareOf? u).map f := by
  have hcopy := h.copy hx
  generalize f x = x' at hcopy
  cases hcopy with
  | unary i j v a =>
    have ha := h.copy (h.mem_of_unary hx)
    generalize f a = a' at ha
    cases ha with
    | unary k l w a =>
      cases v with
      | sq =>
        simp only [Node.squareOf?]
        split_ifs <;> rfl
      | _ => rfl
    | _ => cases v <;> rfl
  | _ => rfl

variable [Scalar K]

theorem halved? (h : Copies f nodes) (hx : x ∈ nodes) : (f x).halved? = x.halved?.map f := by
  have hcopy := h.copy hx
  generalize f x = x' at hcopy
  cases hcopy with
  | binary i j op a c =>
    have ha := h.copy (h.mem_left hx)
    have hc := h.copy (h.mem_right hx)
    cases op with
    | mul =>
      simp only [Node.halved?, ha.isLiteral, hc.isLiteral]
      split_ifs <;> rfl
    | div =>
      simp only [Node.halved?, hc.isLiteral]
      split_ifs <;> rfl
    | _ => rfl
  | _ => rfl

theorem equalUpTo (h : Copies f nodes) :
    ∀ (depth : Nat) {m n : Node K}, m ∈ nodes → n ∈ nodes →
      (f m).equalUpTo depth (f n) = m.equalUpTo depth n
  | 0, m, n, hm, hn => h.same hm hn
  | depth + 1, m, n, hm, hn => by
    have hmn := h.same hm hn
    have hcopym := h.copy hm
    have hcopyn := h.copy hn
    generalize f m = m' at hcopym hmn
    generalize f n = n' at hcopyn hmn
    cases hcopym with
    | const i j v => cases hcopyn <;> simp only [Node.equalUpTo, hmn]
    | symbol i s => cases hcopyn <;> simp only [Node.equalUpTo, hmn]
    | unary i j u x =>
      cases hcopyn with
      | unary k l v y =>
        have hx := h.mem_of_unary hm
        have hy := h.mem_of_unary hn
        simp only [Node.equalUpTo, hmn, h.equalUpTo depth hx hy]
      | _ => simp only [Node.equalUpTo, hmn]
    | binary i j op x y =>
      cases hcopyn with
      | binary k l op' x' y' =>
        have hx := h.mem_left hm
        have hy := h.mem_right hm
        have hx' := h.mem_left hn
        have hy' := h.mem_right hn
        simp only [Node.equalUpTo, hmn, h.equalUpTo depth hx hx', h.equalUpTo depth hy hy',
          h.equalUpTo depth hx hy', h.equalUpTo depth hy hx']
      | _ => simp only [Node.equalUpTo, hmn]

theorem equal (h : Copies f nodes) (b : Builder) (hx : x ∈ nodes) (hy : y ∈ nodes) :
    b.equal (f x) (f y) = b.equal x y :=
  h.equalUpTo _ hx hy

/-! ## The rules -/

omit [Scalar K] in
theorem mem_of_squareOf? (h : Copies f nodes) {u : Unary} {a : Node K} (hx : x ∈ nodes)
    (ha : a ∈ x.squareOf? u) : a ∈ nodes := by
  obtain ⟨i, j, rfl⟩ := Node.squareOf?_eq_some ha
  exact h.mem_of_unary (h.mem_of_unary hx)

/-- A rule for a difference and another node. -/
theorem difference?_bind (h : Copies f nodes) (b : Builder) (hx : x ∈ nodes) (hy : y ∈ nodes) :
    ((f x).difference?.bind fun (a, c) => if b.equal c (f y) then some (Form.node a) else none) =
      (x.difference?.bind fun (a, c) => if b.equal c y then some (Form.node a) else none).map
        (Form.map f) := by
  rw [(h.copy hx).difference?]
  cases hd : x.difference? with
  | none => rfl
  | some p =>
    obtain ⟨i, rfl⟩ := Node.difference?_eq_some hd
    simp only [Option.map_some, Option.bind_some, Prod.map, h.equal b (h.mem_right hx) hy]
    split_ifs <;> rfl

omit [Scalar K] in
/-- A rule for two nodes that are found in the operands. -/
theorem bind_bind_ite (o o' : Option (Node K)) {p : Node K → Node K → Bool} {g : Node K → Form K}
    (hp : ∀ a ∈ o, ∀ c ∈ o', p (f a) (f c) = p a c) (hg : ∀ a, g (f a) = (g a).map f) :
    ((o.map f).bind fun a => (o'.map f).bind fun c => if p a c then some (g a) else none) =
      (o.bind fun a => o'.bind fun c => if p a c then some (g a) else none).map (Form.map f) := by
  cases o with
  | none => rfl
  | some a =>
    cases o' with
    | none => rfl
    | some c =>
      simp only [Option.map_some, Option.bind_some, hp a rfl c rfl, hg]
      split_ifs <;> rfl

theorem add? (h : Copies f nodes) (b : Builder) (hx : x ∈ nodes) (hy : y ∈ nodes) :
    b.add? (f x) (f y) = (b.add? x y).map (Form.map f) := by
  have hhalf : ∀ {n a : Node K}, n ∈ nodes → a ∈ n.halved? → a ∈ nodes := fun hn ha =>
    h.operands_mem hn (Node.mem_operands_of_halved? ha)
  have hhalves := bind_bind_ite x.halved? y.halved? (p := b.equal) (g := Form.node)
    (fun a ha c hc => h.equal b (hhalf hx ha) (hhalf hy hc)) fun _ => rfl
  have hsquares := bind_bind_ite (x.squareOf? .sin) (y.squareOf? .cos) (p := b.equal)
    (g := fun _ => .const (Scalar.literal .one))
    (fun a ha c hc => h.equal b (h.mem_of_squareOf? hx ha) (h.mem_of_squareOf? hy hc)) fun _ => rfl
  have hsquares' := bind_bind_ite (x.squareOf? .cos) (y.squareOf? .sin)
    (p := fun c s => b.equal s c) (g := fun _ => .const (Scalar.literal .one))
    (fun c hc s hs => h.equal b (h.mem_of_squareOf? hy hs) (h.mem_of_squareOf? hx hc)) fun _ => rfl
  simp only [Builder.add?, (h.copy hx).isZero, (h.copy hy).isZero, (h.copy hx).negated?,
    (h.copy hy).negated?, h.difference?_bind b hx hy, h.difference?_bind b hy hx, h.halved? hx,
    h.halved? hy, h.squareOf? _ hx, h.squareOf? _ hy, hhalves, hsquares, hsquares']
  split_ifs
  · rfl
  · rfl
  · cases y.negated? with
    | some a => rfl
    | none =>
      cases x.negated? with
      | some a => rfl
      | none =>
        simp only [Option.map_none, Option.orElse_eq_orElse, Option.orElse_eq_or, Option.map_or]

theorem sub? (h : Copies f nodes) (b : Builder) (hx : x ∈ nodes) (hy : y ∈ nodes) :
    b.sub? (f x) (f y) = (b.sub? x y).map (Form.map f) := by
  simp only [Builder.sub?, (h.copy hx).isZero, (h.copy hy).isZero, h.equal b hx hy,
    (h.copy hy).negated?]
  split_ifs
  · rfl
  · rfl
  · rfl
  · cases y.negated? <;> rfl

theorem mul? (h : Copies f nodes) (b : Builder) (hx : x ∈ nodes) (hy : y ∈ nodes) :
    b.mul? (f x) (f y) = (b.mul? x y).map (Form.map f) := by
  simp only [Builder.mul?, (h.copy hx).isZero, (h.copy hy).isZero, (h.copy hx).isLiteral,
    (h.copy hy).isLiteral, h.equal b hx hy]
  split_ifs <;> rfl

theorem binaryRule? (h : Copies f nodes) (b : Builder) (op : Binary) (hx : x ∈ nodes)
    (hy : y ∈ nodes) :
    b.binaryRule? op (f x) (f y) = (b.binaryRule? op x y).map (Form.map f) := by
  cases op with
  | add => exact h.add? b hx hy
  | sub => exact h.sub? b hx hy
  | mul => exact h.mul? b hx hy
  | div | constpow =>
    simp only [Builder.binaryRule?, (h.copy hy).isLiteral]
    split_ifs <;> rfl
  | pow =>
    simp only [Builder.binaryRule?, (h.copy hy).isConst]
    split_ifs <;> rfl
  | fmin | fmax =>
    simp only [Builder.binaryRule?, h.equal b hx hy]
    split_ifs <;> rfl
  | _ => rfl

omit [Scalar K] in
theorem unaryRule? (h : Copies f nodes) (u : Unary) (hx : x ∈ nodes) :
    Builder.unaryRule? u (f x) = (Builder.unaryRule? u x).map (Form.map f) := by
  cases u with
  | neg =>
    simp only [Builder.unaryRule?, (h.copy hx).negated?]
    cases x.negated? <;> rfl
  | _ => rfl

theorem fold? (h : Copies f nodes) {g : Form K} (hg : ∀ x ∈ g.operands, x ∈ nodes) :
    Builder.fold? (g.map f) = Builder.fold? g := by
  cases g with
  | node n => rfl
  | const v => rfl
  | unary u x =>
    simp only [Form.map, Builder.fold?, (h.copy (hg x (by simp [Form.operands]))).value?]
  | binary op x y =>
    obtain ⟨hx, hy⟩ := Form.forall_operands_binary.1 hg
    cases op <;> simp only [Form.map, Builder.fold?, (h.copy hx).value?, (h.copy hy).value?]

/-- A builder treats copies as it treats the nodes themselves. -/
theorem step_map (h : Copies f nodes) (b : Builder) {g : Form K}
    (hg : ∀ x ∈ g.operands, x ∈ nodes) : b.step (g.map f) = (b.step g).map (Form.map f) := by
  have hfold := h.fold? hg
  cases g with
  | node n => rfl
  | const v => rfl
  | unary u x =>
    simp only [Form.map, Builder.step] at hfold ⊢
    rw [hfold]
    cases Builder.fold? (.unary u x) with
    | some v => rfl
    | none => exact h.unaryRule? u (hg x (by simp [Form.operands]))
  | binary op x y =>
    obtain ⟨hx, hy⟩ := Form.forall_operands_binary.1 hg
    simp only [Form.map, Builder.step] at hfold ⊢
    rw [hfold]
    cases Builder.fold? (.binary op x y) with
    | some v => rfl
    | none => exact h.binaryRule? b op hx hy

end Copies

end Tangent
