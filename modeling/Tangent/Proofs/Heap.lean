import Mathlib.Data.Set.Insert
import Mathlib.Order.Defs.PartialOrder
import Tangent.Proofs.Graph
import Tangent.Proofs.Rewriting

/-!
# Nodes from one supply

Whether two nodes are one is decided by their numbers alone, so nothing can be said about what a
builder makes unless the nodes at hand were numbered from one supply. A `Heap` is a set of nodes
that can stand beside each other : different nodes have different numbers, all of them already
drawn, and none is an operation that would have been folded. Everything that makes nodes extends
the heap that it starts from, and `Heap.Ensures` says what is true of the result and the heap
after it. `Built` lists the ways in which nodes come about, and `Built.exists_heap` says that
nodes that came about in these ways form a heap.
-/

namespace Tangent

variable {K : Type}

/-! ## Heaps -/

/-- Nodes that were numbered from one supply, and the next number that it hands out. -/
structure Heap (K : Type) [Scalar K] where
  next : Nat
  nodes : Set (Node K)
  operands_mem : ∀ {n x : Node K}, n ∈ nodes → x ∈ n.operands → x ∈ nodes
  id_lt : ∀ {n : Node K}, n ∈ nodes → n.id < next
  eq_of_id : ∀ {m n : Node K}, m ∈ nodes → n ∈ nodes → m.id = n.id → m = n
  /-- No node is an operation that a builder would have folded. -/
  unfolded : ∀ {n : Node K}, n ∈ nodes → Builder.fold? n.form = none

namespace Heap

variable [Scalar K]

instance : Membership (Node K) (Heap K) :=
  ⟨fun p n => n ∈ p.nodes⟩

/-- The second heap comes after the first. -/
instance : Preorder (Heap K) where
  le p q := p.next ≤ q.next ∧ ∀ n ∈ p, n ∈ q
  le_refl p := ⟨Nat.le_refl _, fun _ hn => hn⟩
  le_trans p q r hpq hqr := ⟨Nat.le_trans hpq.1 hqr.1, fun n hn => hqr.2 n (hpq.2 n hn)⟩

variable {p q : Heap K}

theorem mem_of_le (h : p ≤ q) {n : Node K} (hn : n ∈ p) : n ∈ q :=
  h.2 n hn

/-- The nodes of a heap make up a graph. -/
def graph (p : Heap K) : Graph K where
  nodes := p.nodes
  operands_mem := p.operands_mem
  eq_of_id := p.eq_of_id

theorem mem_of_unary {i : Nat} {u : Unary} {x : Node K} (h : .unary i u x ∈ p) : x ∈ p :=
  Graph.mem_of_unary (G := p.graph) h

theorem mem_left {i : Nat} {op : Binary} {x y : Node K} (h : .binary i op x y ∈ p) : x ∈ p :=
  Graph.mem_left (G := p.graph) h

theorem mem_right {i : Nat} {op : Binary} {x y : Node K} (h : .binary i op x y ∈ p) : y ∈ p :=
  Graph.mem_right (G := p.graph) h

/-- The heap without nodes. -/
def empty (next : Nat) : Heap K where
  next
  nodes := ∅
  operands_mem hn := by simp at hn
  id_lt hn := by simp at hn
  eq_of_id hm := by simp at hm
  unfolded hn := by simp at hn

/-- The heap after a number was drawn for something else than a node. -/
def skip (p : Heap K) : Heap K where
  next := p.next + 1
  nodes := p.nodes
  operands_mem := p.operands_mem
  id_lt hn := Nat.lt_succ_of_lt (p.id_lt hn)
  eq_of_id := p.eq_of_id
  unfolded := p.unfolded

/-- The heap with a node that has the next number. -/
def add (p : Heap K) (n : Node K) (hid : n.id = p.next) (hops : ∀ x ∈ n.operands, x ∈ p)
    (hfold : Builder.fold? n.form = none) : Heap K where
  next := p.next + 1
  nodes := insert n p.nodes
  operands_mem := by
    rintro m x (rfl | hm) hx
    · exact Or.inr (hops x hx)
    · exact Or.inr (p.operands_mem hm hx)
  id_lt := by
    rintro m (rfl | hm)
    · omega
    · exact Nat.lt_succ_of_lt (p.id_lt hm)
  eq_of_id := by
    rintro m m' (rfl | hm) (rfl | hm') he
    · rfl
    · have := p.id_lt hm'
      omega
    · have := p.id_lt hm
      omega
    · exact p.eq_of_id hm hm' he
  unfolded := by
    rintro m (rfl | hm)
    · exact hfold
    · exact p.unfolded hm

/-! ## What a build ensures -/

variable {α β : Type}

/-- Run from the heap, the build ends in a later heap, and `Q` is true of that heap and the
result. -/
def Ensures (p : Heap K) (x : Build α) (Q : Heap K → α → Prop) : Prop :=
  ∃ q, p ≤ q ∧ q.next = (x p.next).2 ∧ Q q (x p.next).1

variable {Q : Heap K → α → Prop} {R : Heap K → β → Prop}

theorem Ensures.pure {a : α} (h : Q p a) : p.Ensures (pure a) Q :=
  ⟨p, le_refl p, rfl, h⟩

/-- One build after the other, where the second may depend on how the first one ran. -/
theorem Ensures.bind_run {x : Build α} {k : α → Build β} (hx : p.Ensures x Q)
    (hk : ∀ q, p ≤ q → q.next = (x p.next).2 → Q q (x p.next).1 → q.Ensures (k (x p.next).1) R) :
    p.Ensures (x >>= k) R := by
  obtain ⟨q, hpq, hq, ha⟩ := hx
  obtain ⟨r, hqr, hr, hb⟩ := hk q hpq hq ha
  rw [hq] at hr hb
  exact ⟨r, le_trans hpq hqr, hr, hb⟩

theorem Ensures.bind {x : Build α} {k : α → Build β} (hx : p.Ensures x Q)
    (hk : ∀ q a, p ≤ q → Q q a → q.Ensures (k a) R) : p.Ensures (x >>= k) R :=
  hx.bind_run fun q hpq _ ha => hk q _ hpq ha

theorem Ensures.imp {Q' : Heap K → α → Prop} {x : Build α} (hx : p.Ensures x Q)
    (h : ∀ q a, p ≤ q → Q q a → Q' q a) : p.Ensures x Q' := by
  obtain ⟨q, hpq, hq, ha⟩ := hx
  exact ⟨q, hpq, hq, h q _ hpq ha⟩

theorem Ensures.result {x : Build α} {P : α → Prop}
    (h : p.Ensures x fun _ a => P a) : P (x p.next).1 := by
  obtain ⟨q, -, -, ha⟩ := h
  exact ha

/-- The result is the one of the run. -/
theorem Ensures.run {x : Build α}
    (h : p.Ensures x Q) : p.Ensures x fun q a => Q q a ∧ a = (x p.next).1 := by
  obtain ⟨q, hpq, hq, ha⟩ := h
  exact ⟨q, hpq, hq, ha, rfl⟩

/-- Builds that run one after the other : each result has the property `P`, if later heaps keep it,
and what `g` says of `f`. -/
theorem Ensures.mapM {γ : Type} {P : Heap K → β → Prop} (hP : ∀ q r b, q ≤ r → P q b → P r b)
    {x : α → Build β} {f : β → γ} {g : α → γ} :
    ∀ {p : Heap K} (as : List α),
      (∀ q a, p ≤ q → a ∈ as → q.Ensures (x a) fun r b => P r b ∧ f b = g a) →
      p.Ensures (as.mapM x) fun q bs => (∀ b ∈ bs, P q b) ∧ bs.map f = as.map g
  | p, [], _ => by
    rw [List.mapM_nil]
    exact .pure ⟨by simp, rfl⟩
  | p, a :: as, hx => by
    rw [List.mapM_cons]
    refine (hx p a (le_refl p) List.mem_cons_self).bind fun q b hpq hb => ?_
    refine (Ensures.mapM hP as fun r a' hqr ha' =>
      hx r a' (le_trans hpq hqr) (List.mem_cons_of_mem _ ha')).bind fun r bs hqr hbs => ?_
    refine .pure ⟨List.forall_mem_cons.2 ⟨hP q r b hqr hb.1, hbs.1⟩, ?_⟩
    rw [List.map_cons, List.map_cons, hb.2, hbs.2]

/-- A node with the next number joins the heap. -/
theorem ensures_fresh (mk : Nat → Node K) (hid : ∀ i, (mk i).id = i)
    (hops : ∀ i, ∀ x ∈ (mk i).operands, x ∈ p) (hfold : ∀ i, Builder.fold? (mk i).form = none) :
    p.Ensures (return mk (← Build.fresh)) fun q n => n ∈ q ∧ n = mk p.next :=
  ⟨p.add (mk p.next) (hid _) (hops _) (hfold _), ⟨Nat.le_succ _, fun _ hn => Or.inr hn⟩, rfl,
    Or.inl rfl, rfl⟩

theorem ensures_newConst (v : K) :
    p.Ensures (Node.newConst v) fun q n => n ∈ q ∧ n.value? = some v := by
  refine (ensures_fresh (fun i => .const i v) (fun _ => rfl) (by simp [Node.operands])
    fun _ => rfl).imp fun q n _ hn => ?_
  exact ⟨hn.1, hn.2 ▸ rfl⟩

theorem ensures_newSymbol (name : String) :
    p.Ensures (Node.newSymbol name) fun q n => n ∈ q ∧ n = .symbol p.next name :=
  ensures_fresh (fun i => .symbol i name) (fun _ => rfl) (by simp [Node.operands])
    fun _ => rfl

/-! ## Folding -/

theorem fold?_unary_eq_none {u : Unary} {x : Node K} :
    Builder.fold? (.unary u x) = none ↔ x.value? = none := by
  simp [Builder.fold?]

theorem fold?_binary {op : Binary} (hop : op ≠ .printme) (x y : Node K) :
    Builder.fold? (.binary op x y) =
      x.value?.bind fun v => y.value?.map (Scalar.binary op v) := by
  cases op <;> first | rfl | exact absurd rfl hop

theorem fold?_binary_eq_none {op : Binary} (hop : op ≠ .printme) {x y : Node K} :
    Builder.fold? (.binary op x y) = none ↔ x.value? = none ∨ y.value? = none := by
  rw [fold?_binary hop]
  cases x.value? <;> simp

theorem value?_ne_none_of_isLiteral {x : Node K} {l : Literal} (h : x.isLiteral l) :
    x.value? ≠ none := by
  intro hx
  simp [Node.isLiteral, Node.isValue, hx] at h

theorem value?_eq_none_of_equal {b : Builder} {x y : Node K} (hx : x ∈ p) (hy : y ∈ p)
    (h : b.equal x y) (hv : x.value? = none ∨ y.value? = none) : x.value? = none := by
  have hsame : x.id = y.id → x.value? = none := by
    intro he
    rw [← p.eq_of_id hx hy he, or_self] at hv
    exact hv
  unfold Builder.equal at h
  cases hd : b.depth.toNatClampNeg with
  | zero =>
    rw [hd] at h
    exact hsame (by simpa [Node.equalUpTo, Node.same] using h)
  | succ depth =>
    rw [hd] at h
    rcases Node.equalUpTo_succ_cases h with he | ⟨i, j, v, w, rfl, rfl, -⟩ |
      ⟨i, j, u, a, c, rfl, rfl, -⟩ | ⟨i, j, op, a, a', c, c', rfl, rfl, -⟩
    · exact hsame he
    · simp [Node.value?] at hv
    · rfl
    · rfl

/-- No rule leads to a form that folds, so that only what is asked for first can fold. -/
theorem fold?_of_rewrites {b : Builder} {f g : Form K} (h : Rewrites b f g)
    (hf : ∀ x ∈ f.operands, x ∈ p) (hfold : Builder.fold? f = none) :
    Builder.fold? g = none := by
  have hneg : ∀ {i a}, (Node.unary i .neg a : Node K) ∈ p → a.value? = none := fun hn =>
    fold?_unary_eq_none.1 (p.unfolded hn)
  cases h with
  | add_neg =>
    exact (fold?_binary_eq_none (by decide)).2 (.inr (hneg (Form.forall_operands_binary.1 hf).2))
  | neg_add =>
    exact (fold?_binary_eq_none (by decide)).2 (.inr (hneg (Form.forall_operands_binary.1 hf).1))
  | sub_neg =>
    exact (fold?_binary_eq_none (by decide)).2 (.inr (hneg (Form.forall_operands_binary.1 hf).2))
  | zero_sub hx | negOne_mul hx =>
    exact fold?_unary_eq_none.2 (((fold?_binary_eq_none (by decide)).1 hfold).resolve_left
      (value?_ne_none_of_isLiteral hx))
  | mul_negOne hy =>
    exact fold?_unary_eq_none.2 (((fold?_binary_eq_none (by decide)).1 hfold).resolve_right
      (value?_ne_none_of_isLiteral hy))
  | mul_self he =>
    obtain ⟨hx, hy⟩ := Form.forall_operands_binary.1 hf
    exact fold?_unary_eq_none.2
      (value?_eq_none_of_equal hx hy he ((fold?_binary_eq_none (by decide)).1 hfold))
  | pow_const =>
    exact (fold?_binary_eq_none (by decide)).2 ((fold?_binary_eq_none (by decide)).1 hfold)
  | _ => rfl

/-! ## Making nodes -/

theorem operands_of_settle {b : Builder} {f : Form K} (hf : ∀ x ∈ f.operands, x ∈ p) :
    (∀ x ∈ (b.settle f).operands, x ∈ p) ∧ b.step (b.settle f) = none :=
  Builder.operands_settle (fun _ hn _ hx => p.operands_mem hn hx) hf

/-- The node that is made is what the form settles to. -/
theorem ensures_make (b : Builder) {f : Form K} (hf : ∀ x ∈ f.operands, x ∈ p) :
    p.Ensures (b.make f) fun q n => n ∈ q ∧ (b.settle f = .node n ∨ b.settle f = n.form) := by
  obtain ⟨hops, hstep⟩ := operands_of_settle (b := b) hf
  have hfold := Builder.fold?_of_step_eq_none hstep
  unfold Builder.make
  cases hs : b.settle f with
  | node n =>
    rw [hs] at hops
    exact .pure ⟨hops n (by simp [Form.operands]), Or.inl rfl⟩
  | const v =>
    refine (ensures_newConst v).imp fun q n _ hn => ⟨hn.1, Or.inr ?_⟩
    cases n <;> simp_all [Node.value?, Node.form]
  | unary u x =>
    rw [hs] at hops hfold
    refine (ensures_fresh (fun i => .unary i u x) (fun _ => rfl) (fun _ => hops)
      fun _ => hfold).imp fun q n _ hn => ?_
    exact ⟨hn.1, Or.inr (by rw [hn.2]; rfl)⟩
  | binary op x y =>
    rw [hs] at hops hfold
    refine (ensures_fresh (fun i => .binary i op x y) (fun _ => rfl) (fun _ => hops)
      fun _ => hfold).imp fun q n _ hn => ?_
    exact ⟨hn.1, Or.inr (by rw [hn.2]; rfl)⟩

/-- What folds becomes the constant that it folds to. -/
theorem ensures_make_of_fold? (b : Builder) {f : Form K} {v : K} (h : Builder.fold? f = some v) :
    p.Ensures (b.make f) fun q n => n ∈ q ∧ n.value? = some v := by
  rw [Builder.make, Builder.settle_of_fold? h]
  exact ensures_newConst v

end Heap

/-! ## The ways in which nodes come about -/

/-- The nodes were made one after the other, with numbers from one supply that hands out `next` as
its next number : constants, symbols, and operations that some builder was asked for. Numbers may
be drawn for other purposes in between. -/
inductive Built [Scalar K] : Nat → List (Node K) → Prop
  | start (next : Nat) : Built next []
  | draw {next : Nat} {nodes : List (Node K)} : Built next nodes → Built (next + 1) nodes
  | const {next : Nat} {nodes : List (Node K)} (v : K) : Built next nodes →
      Built (Node.newConst v next).2 ((Node.newConst v next).1 :: nodes)
  | symbol {next : Nat} {nodes : List (Node K)} (name : String) : Built next nodes →
      Built (Node.newSymbol (K := K) name next).2 ((Node.newSymbol name next).1 :: nodes)
  | unary {next : Nat} {nodes : List (Node K)} (b : Builder) (u : Unary) {x : Node K} :
      Built next nodes → x ∈ nodes →
      Built (b.unary u x next).2 ((b.unary u x next).1 :: nodes)
  | binary {next : Nat} {nodes : List (Node K)} (b : Builder) (op : Binary) {x y : Node K} :
      Built next nodes → x ∈ nodes → y ∈ nodes →
      Built (b.binary op x y next).2 ((b.binary op x y next).1 :: nodes)

/-- An operation that no rule simplifies is made as it is. -/
theorem Builder.unary_of_step [Scalar K] {b : Builder} {u : Unary} {x : Node K}
    (h : b.step (.unary u x) = none) (next : Nat) :
    b.unary u x next = (.unary next u x, next + 1) := by
  rw [unary, make, settle_of_step_eq_none h]
  rfl

theorem Builder.binary_of_step [Scalar K] {b : Builder} {op : Binary} {x y : Node K}
    (h : b.step (.binary op x y) = none) (next : Nat) :
    b.binary op x y next = (.binary next op x y, next + 1) := by
  rw [binary, make, settle_of_step_eq_none h]
  rfl

theorem Built.unary_of_step [Scalar K] {next : Nat} {nodes : List (Node K)} {b : Builder}
    {u : Unary} {x : Node K} (h : Built next nodes) (hx : x ∈ nodes)
    (hstep : b.step (.unary u x) = none) : Built (next + 1) (.unary next u x :: nodes) := by
  have := h.unary b u hx
  rwa [Builder.unary_of_step hstep] at this

theorem Built.binary_of_step [Scalar K] {next : Nat} {nodes : List (Node K)} {b : Builder}
    {op : Binary} {x y : Node K} (h : Built next nodes) (hx : x ∈ nodes) (hy : y ∈ nodes)
    (hstep : b.step (.binary op x y) = none) :
    Built (next + 1) (.binary next op x y :: nodes) := by
  have := h.binary b op hx hy
  rwa [Builder.binary_of_step hstep] at this

/-- A build that starts from a heap with some nodes ends in one with these nodes and its result. -/
theorem Heap.Ensures.cons [Scalar K] {p : Heap K} {x : Build (Node K)} {nodes : List (Node K)}
    {Q : Heap K → Node K → Prop} (h : p.Ensures x fun q n => n ∈ q ∧ Q q n)
    (hn : ∀ n ∈ nodes, n ∈ p) :
    ∃ q : Heap K, q.next = (x p.next).2 ∧ ∀ n ∈ (x p.next).1 :: nodes, n ∈ q := by
  obtain ⟨q, hpq, hq, hmem, -⟩ := h
  refine ⟨q, hq, fun n hn' => ?_⟩
  rcases List.mem_cons.1 hn' with rfl | hn'
  · exact hmem
  · exact mem_of_le hpq (hn n hn')

theorem Built.exists_heap [Scalar K] {next : Nat} {nodes : List (Node K)} (h : Built next nodes) :
    ∃ p : Heap K, p.next = next ∧ ∀ n ∈ nodes, n ∈ p := by
  induction h with
  | start next => exact ⟨.empty next, rfl, by simp⟩
  | draw _ ih =>
    obtain ⟨p, rfl, hp⟩ := ih
    exact ⟨p.skip, rfl, hp⟩
  | const v _ ih =>
    obtain ⟨p, rfl, hp⟩ := ih
    exact (Heap.ensures_newConst v).cons hp
  | symbol name _ ih =>
    obtain ⟨p, rfl, hp⟩ := ih
    exact (Heap.ensures_newSymbol name).cons hp
  | unary b u _ hx ih =>
    obtain ⟨p, rfl, hp⟩ := ih
    exact (Heap.ensures_make b (by simpa [Form.operands] using hp _ hx)).cons hp
  | binary b op _ hx hy ih =>
    obtain ⟨p, rfl, hp⟩ := ih
    exact (Heap.ensures_make b (Form.forall_operands_binary.2 ⟨hp _ hx, hp _ hy⟩)).cons hp

end Tangent
