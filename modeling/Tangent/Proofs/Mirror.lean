import Mathlib
import Tangent.Proofs.Copies
import Tangent.Proofs.Heap
import Tangent.Proofs.Slopes

/-!
# Two runs side by side

Of two builds one may do more than the other : the nodes that the first makes have copies, with
other numbers, among the nodes that the second makes. A `Mirror` is a heap together with such an
image of it. What the simplifier decides about nodes it decides about their copies, so a node
that is asked for on both sides is made on both sides, and joins the mirror (`Mirror.ensures_make`).
Nodes that are made on the side of the image alone change nothing (`Mirror.Ensures.aside`).
`Mirror.Ensures` is to two builds what `Heap.Ensures` is to one.

Several directions in one run, of which the other run has one alone, are lists that stand beside
each other (`Beside`), and what is done for each direction keeps them so (`Mirror.Ensures.mapM`).
-/

namespace Tangent

variable {K : Type}

/-! ## Other numbers -/

namespace Node

/-- The node with other numbers. -/
def renumber (f : Nat → Nat) : Node K → Node K
  | const i v => const (f i) v
  | symbol i s => symbol (f i) s
  | unary i u x => unary (f i) u (x.renumber f)
  | binary i op x y => binary (f i) op (x.renumber f) (y.renumber f)

variable {f g : Nat → Nat} {n : Node K}

@[simp] theorem id_renumber (f : Nat → Nat) (n : Node K) : (n.renumber f).id = f n.id := by
  cases n <;> rfl

theorem operands_renumber (f : Nat → Nat) (n : Node K) :
    (n.renumber f).operands = n.operands.map (renumber f) := by
  cases n <;> rfl

/-- Only the numbers of what a node reaches matter. -/
theorem renumber_congr (h : ∀ m, n.Reaches m → f m.id = g m.id) :
    n.renumber f = n.renumber g := by
  have hself := h n (.refl n)
  induction n with
  | const i v => exact congrArg (const · v) hself
  | symbol i s => exact congrArg (symbol · s) hself
  | unary i u x ih =>
    have hx := fun m hm => h m (.head (x := x) (by simp [operands]) hm)
    rw [renumber, renumber, ih hx (hx x (.refl x))]
    exact congrArg (unary · u _) hself
  | binary i op x y ihx ihy =>
    have hx := fun m hm => h m (.head (x := x) (by simp [operands]) hm)
    have hy := fun m hm => h m (.head (x := y) (by simp [operands]) hm)
    rw [renumber, renumber, ihx hx (hx x (.refl x)), ihy hy (hy y (.refl y))]
    exact congrArg (binary · op _ _) hself

theorem renumber_id (n : Node K) : n.renumber (fun i => i) = n := by
  induction n with
  | const i v => rfl
  | symbol i s => rfl
  | unary i u x ih => rw [renumber, ih]
  | binary i op x y ihx ihy => rw [renumber, ihx, ihy]

/-- The expression without the numbers of its nodes. Symbols keep theirs, which tell them apart. -/
def expression : Node K → Node K
  | const _ v => const 0 v
  | symbol i s => symbol i s
  | unary _ u x => unary 0 u x.expression
  | binary _ op x y => binary 0 op x.expression y.expression

/-- With other numbers a node is the same expression, if symbols keep theirs. -/
theorem expression_renumber (h : ∀ m, n.Reaches m → m.isSymbol → f m.id = m.id) :
    (n.renumber f).expression = n.expression := by
  induction n with
  | const i v => rfl
  | symbol i s => exact congrArg (symbol · s) (h _ (.refl _) rfl)
  | unary i u x ih =>
    rw [renumber, expression, expression, ih fun m hm => h m (.head (by simp [operands]) hm)]
  | binary i op x y ihx ihy =>
    rw [renumber, expression, expression, ihx fun m hm => h m (.head (by simp [operands]) hm),
      ihy fun m hm => h m (.head (by simp [operands]) hm)]

end Node

variable [Scalar K]

/-- The heap with numbers left out. -/
def Heap.advance (p : Heap K) (next : Nat) (h : p.next ≤ next) : Heap K where
  next
  nodes := p.nodes
  operands_mem := p.operands_mem
  id_lt hn := Nat.lt_of_lt_of_le (p.id_lt hn) h
  eq_of_id := p.eq_of_id
  unfolded := p.unfolded

/-! ## Mirrors -/

/-- A heap and an image of it : its nodes have copies on the image, with other numbers, and only
symbols are sure to be their own copies. The image may hold further nodes. -/
structure Mirror (K : Type) [Scalar K] where
  heap : Heap K
  image : Heap K
  number : Nat → Nat
  mem : ∀ {n : Node K}, n ∈ heap → n.renumber number ∈ image
  symbol : ∀ {i : Nat} {s : String}, .symbol i s ∈ heap → number i = i
  injective : ∀ {m n : Node K}, m ∈ heap → n ∈ heap → number m.id = number n.id → m.id = n.id

namespace Mirror

variable {s s' : Mirror K} {n : Node K}

/-- The copy of a node. -/
def copy (s : Mirror K) (n : Node K) : Node K :=
  n.renumber s.number

/-- The nodes of the heap have copies in the sense of the simplifier. -/
theorem copies (s : Mirror K) : Copies s.copy s.heap.nodes where
  operands_mem := s.heap.operands_mem
  copy {n} hn := by
    cases n with
    | const i v => exact .const _ _ v
    | symbol i name =>
      have hcopy : s.copy (.symbol i name) = .symbol i name :=
        congrArg (Node.symbol · name) (s.symbol hn)
      rw [hcopy]
      exact .symbol i name
    | unary i u x => exact .unary _ _ u x
    | binary i op x y => exact .binary _ _ op x y
  same {m n} hm hn := by
    rw [Bool.eq_iff_iff, Node.same, Node.same, beq_iff_eq, beq_iff_eq]
    rw [copy, copy, Node.id_renumber, Node.id_renumber]
    exact ⟨s.injective hm hn, congrArg s.number⟩

/-- A copy is the same expression. -/
theorem expression_copy (hn : n ∈ s.heap) : (s.copy n).expression = n.expression := by
  refine Node.expression_renumber fun m hm hs => ?_
  have hmem := s.heap.graph.mem_of_reaches hn hm
  cases m with
  | symbol i name => exact s.symbol hmem
  | _ => cases hs

/-- The second mirror comes after the first. -/
instance : Preorder (Mirror K) where
  le s s' := s.heap ≤ s'.heap ∧ s.image ≤ s'.image ∧ ∀ n ∈ s.heap, s'.copy n = s.copy n
  le_refl s := ⟨le_refl _, le_refl _, fun _ _ => rfl⟩
  le_trans s₁ s₂ s₃ h₁₂ h₂₃ := ⟨le_trans h₁₂.1 h₂₃.1, le_trans h₁₂.2.1 h₂₃.2.1, fun n hn =>
    (h₂₃.2.2 n (Heap.mem_of_le h₁₂.1 hn)).trans (h₁₂.2.2 n hn)⟩

/-- A heap before two builds that start with different numbers. -/
def start (p : Heap K) {next next' : Nat} (h : p.next ≤ next) (h' : p.next ≤ next') : Mirror K where
  heap := p.advance next h
  image := p.advance next' h'
  number i := i
  mem {n} hn := by rwa [Node.renumber_id]
  symbol _ := rfl
  injective _ _ he := he

/-- The mirror after a build on the side of the image. -/
def onto (s : Mirror K) (q : Heap K) (h : s.image ≤ q) : Mirror K where
  heap := s.heap
  image := q
  number := s.number
  mem hn := Heap.mem_of_le h (s.mem hn)
  symbol := s.symbol
  injective := s.injective

theorem le_onto (s : Mirror K) {q : Heap K} (h : s.image ≤ q) : s ≤ s.onto q h :=
  ⟨le_refl _, h, fun _ _ => rfl⟩

/-- The numbers once both sides have handed out their next one. -/
def nextNumber (s : Mirror K) : Nat → Nat :=
  Function.update s.number s.heap.next s.image.next

theorem nextNumber_of_ne {i : Nat} (h : i ≠ s.heap.next) : s.nextNumber i = s.number i :=
  Function.update_of_ne h _ _

theorem nextNumber_next (s : Mirror K) : s.nextNumber s.heap.next = s.image.next :=
  Function.update_self _ _ _

theorem nextNumber_id (hn : n ∈ s.heap) : s.nextNumber n.id = s.number n.id :=
  nextNumber_of_ne (s.heap.id_lt hn).ne

theorem renumber_nextNumber (hn : n ∈ s.heap) : n.renumber s.nextNumber = s.copy n :=
  Node.renumber_congr fun _ hm => nextNumber_id (s.heap.graph.mem_of_reaches hn hm)

/-- The mirror with a node that has the next number on both sides. -/
def add (s : Mirror K) (n m : Node K) (hid : n.id = s.heap.next) (hm : m = n.renumber s.nextNumber)
    (hsymbol : ¬n.isSymbol) (hops : ∀ x ∈ n.operands, x ∈ s.heap)
    (hfold : Builder.fold? n.form = none) (hfold' : Builder.fold? m.form = none) : Mirror K where
  heap := s.heap.add n hid hops hfold
  image := s.image.add m (by rw [hm, Node.id_renumber, hid, nextNumber_next]) (by
    intro y hy
    rw [hm, Node.operands_renumber] at hy
    obtain ⟨x, hx, rfl⟩ := List.mem_map.1 hy
    rw [renumber_nextNumber (hops x hx)]
    exact s.mem (hops x hx)) hfold'
  number := s.nextNumber
  mem := by
    rintro k (rfl | hk)
    · exact Or.inl hm.symm
    · rw [renumber_nextNumber hk]
      exact Or.inr (s.mem hk)
  symbol := by
    rintro i name (rfl | hk)
    · exact absurd rfl hsymbol
    · exact (nextNumber_id hk).trans (s.symbol hk)
  injective := by
    -- The new number on the side of the image is none of those of earlier copies.
    have hnew : ∀ {k : Node K}, k ∈ s.heap → s.nextNumber k.id ≠ s.nextNumber n.id := by
      intro k hk
      have hlt := s.image.id_lt (s.mem hk)
      rw [Node.id_renumber] at hlt
      rw [nextNumber_id hk, hid, nextNumber_next]
      exact hlt.ne
    rintro k l (rfl | hk) (rfl | hl) he
    · rfl
    · exact absurd he.symm (hnew hl)
    · exact absurd he (hnew hk)
    · rw [nextNumber_id hk, nextNumber_id hl] at he
      exact s.injective hk hl he

theorem le_add {m : Node K} {hid : n.id = s.heap.next} {hm : m = n.renumber s.nextNumber}
    {hsymbol : ¬n.isSymbol} {hops : ∀ x ∈ n.operands, x ∈ s.heap}
    {hfold : Builder.fold? n.form = none} {hfold' : Builder.fold? m.form = none} :
    s ≤ s.add n m hid hm hsymbol hops hfold hfold' :=
  ⟨⟨Nat.le_succ _, fun _ hk => Or.inr hk⟩, ⟨Nat.le_succ _, fun _ hk => Or.inr hk⟩,
    fun _ hk => renumber_nextNumber hk⟩

/-! ## What two builds ensure -/

variable {α β γ δ : Type}

/-- Run from the two sides of the mirror, the builds end in a later mirror, and `Q` is true of that
mirror and the results. -/
def Ensures (s : Mirror K) (x : Build α) (y : Build β) (Q : Mirror K → α → β → Prop) : Prop :=
  ∃ s', s ≤ s' ∧ s'.heap.next = (x s.heap.next).2 ∧ s'.image.next = (y s.image.next).2 ∧
    Q s' (x s.heap.next).1 (y s.image.next).1

variable {x : Build α} {y : Build β} {Q : Mirror K → α → β → Prop} {R : Mirror K → γ → δ → Prop}

theorem Ensures.pure {a : α} {b : β} (h : Q s a b) : s.Ensures (pure a) (pure b) Q :=
  ⟨s, le_refl s, rfl, rfl, h⟩

theorem Ensures.bind {k : α → Build γ} {l : β → Build δ} (h : s.Ensures x y Q)
    (hk : ∀ s' a b, s ≤ s' → Q s' a b → s'.Ensures (k a) (l b) R) :
    s.Ensures (x >>= k) (y >>= l) R := by
  obtain ⟨s₁, h₁, hheap, himage, ha⟩ := h
  obtain ⟨s₂, h₂, hheap', himage', hb⟩ := hk s₁ _ _ h₁ ha
  rw [hheap] at hheap' hb
  rw [himage] at himage' hb
  exact ⟨s₂, le_trans h₁ h₂, hheap', himage', hb⟩

theorem Ensures.imp {Q' : Mirror K → α → β → Prop} (h : s.Ensures x y Q)
    (himp : ∀ s' a b, s ≤ s' → Q s' a b → Q' s' a b) : s.Ensures x y Q' := by
  obtain ⟨s', hs, hheap, himage, ha⟩ := h
  exact ⟨s', hs, hheap, himage, himp s' _ _ hs ha⟩

/-- On the side of the image more may be built. -/
theorem Ensures.aside {P : Heap K → γ → Prop} {z : Build γ} {l : γ → Build β}
    (hz : s.image.Ensures z P) (hl : ∀ s' c, s ≤ s' → P s'.image c → s'.Ensures x (l c) Q) :
    s.Ensures x (z >>= l) Q := by
  obtain ⟨q, hle, hq, hc⟩ := hz
  obtain ⟨s', hs, hheap, himage, ha⟩ := hl (s.onto q hle) _ (s.le_onto hle) hc
  have hnext : (s.onto q hle).image.next = (z s.image.next).2 := hq
  rw [hnext] at himage ha
  exact ⟨s', le_trans (s.le_onto hle) hs, hheap, himage, ha⟩

/-- Both sides test whether there is something to do; the image may have more to do. -/
theorem Ensures.ite {x₁ x₂ : Build α} {y₁ y₂ : Build β} {c c' : Prop} [Decidable c] [Decidable c']
    (hc : c' → c) (hneither : s.Ensures x₁ y₁ Q) (hone : c → s.Ensures x₁ y₂ Q)
    (hboth : ¬c → s.Ensures x₂ y₂ Q) :
    s.Ensures (if c then x₁ else x₂) (if c' then y₁ else y₂) Q := by
  split_ifs with h h' h'
  · exact hneither
  · exact hone h
  · exact absurd (hc h') h
  · exact hboth h

/-- What the second build does by itself. -/
theorem Ensures.image {P : Heap K → β → Prop} (h : s.Ensures x y fun s' _ b => P s'.image b) :
    s.image.Ensures y P := by
  obtain ⟨s', hs, -, himage, hb⟩ := h
  exact ⟨s'.image, hs.2.1, himage, hb⟩

/-! ## Making nodes -/

/-- The second node is the copy of the first. -/
def Shows (s : Mirror K) (n m : Node K) : Prop :=
  n ∈ s.heap ∧ m = s.copy n

theorem Shows.mono {m : Node K} (hs : s ≤ s') (h : s.Shows n m) : s'.Shows n m :=
  ⟨Heap.mem_of_le hs.1 h.1, h.2.trans (hs.2.2 n h.1).symm⟩

/-- The operands of a node that is its own copy are their own copies. -/
theorem Shows.operand {x : Node K} (h : s.Shows n n) (hx : x ∈ n.operands) : s.Shows x x := by
  refine ⟨s.heap.operands_mem h.1 hx, ?_⟩
  have hn := h.2
  cases n with
  | const i v => cases hx
  | symbol i name => cases hx
  | unary i u y =>
    obtain rfl : x = y := by simpa [Node.operands] using hx
    exact (Node.unary.inj hn).2.2
  | binary i op y z =>
    obtain ⟨-, -, hy, hz⟩ := Node.binary.inj hn
    have hcases : x = y ∨ x = z := by simpa [Node.operands] using hx
    rcases hcases with rfl | rfl
    · exact hy
    · exact hz

theorem Shows.mem_image {m : Node K} (h : s.Shows n m) : m ∈ s.image :=
  h.2 ▸ s.mem h.1

/-- A node with the next number joins both sides. -/
theorem ensures_fresh (mk mk' : Nat → Node K) (hid : ∀ i, (mk i).id = i)
    (hcopy : mk' s.image.next = (mk s.heap.next).renumber s.nextNumber)
    (hsymbol : ∀ i, ¬(mk i).isSymbol) (hops : ∀ i, ∀ x ∈ (mk i).operands, x ∈ s.heap)
    (hfold : ∀ i, Builder.fold? (mk i).form = none)
    (hfold' : ∀ i, Builder.fold? (mk' i).form = none) :
    s.Ensures (return mk (← Build.fresh)) (return mk' (← Build.fresh)) Shows :=
  ⟨s.add (mk s.heap.next) (mk' s.image.next) (hid _) hcopy (hsymbol _) (hops _) (hfold _)
    (hfold' _), le_add, rfl, rfl, Or.inl rfl, hcopy⟩

theorem ensures_newConst (v : K) : s.Ensures (Node.newConst v) (Node.newConst v) Shows :=
  ensures_fresh (fun i => .const i v) (fun i => .const i v) (fun _ => rfl)
    (congrArg (Node.const · v) s.nextNumber_next.symm) (by simp [Node.isSymbol, Node.name?])
    (by simp [Node.operands]) (fun _ => rfl) fun _ => rfl

/-- Copies settle as the nodes do. -/
theorem settle_map (b : Builder) (f : Form K) (hf : ∀ x ∈ f.operands, x ∈ s.heap) :
    b.settle (f.map s.copy) = (b.settle f).map s.copy := by
  have hstep := s.copies.step_map b hf
  cases h : b.step f with
  | none =>
    rw [h] at hstep
    rw [Builder.settle_of_step_eq_none h, Builder.settle_of_step_eq_none hstep]
  | some g =>
    have hg : ∀ x ∈ g.operands, x ∈ s.heap := by
      rcases Builder.step_cases h with ⟨v, -, rfl⟩ | ⟨-, hg⟩
      · simp [Form.operands]
      · exact hg.operands_inherit (fun _ hn _ hx => s.heap.operands_mem hn hx) hf
    rw [h] at hstep
    rw [Builder.settle_of_step h, Builder.settle_of_step hstep]
    exact settle_map b g hg
termination_by f.weight
decreasing_by exact Builder.weight_step_lt b h

/-- What is made of copies is the copy of what is made. -/
theorem ensures_make (b : Builder) {f : Form K} (hf : ∀ x ∈ f.operands, x ∈ s.heap) :
    s.Ensures (b.make f) (b.make (f.map s.copy)) Shows := by
  obtain ⟨hops, hstep⟩ := Heap.operands_of_settle (b := b) hf
  have hfold := Builder.fold?_of_step_eq_none hstep
  have hfold' := (s.copies.fold? hops).trans hfold
  rw [Builder.make, Builder.make, settle_map b f hf]
  cases hs : b.settle f with
  | node n =>
    rw [hs] at hops
    exact .pure ⟨hops n (by simp [Form.operands]), rfl⟩
  | const v => exact ensures_newConst v
  | unary u x =>
    rw [hs] at hops hfold hfold'
    have hx := hops x (by simp [Form.operands])
    refine ensures_fresh (fun i => .unary i u x) (fun i => .unary i u (s.copy x)) (fun _ => rfl) ?_
      (by simp [Node.isSymbol, Node.name?]) (fun _ => hops) (fun _ => hfold) fun _ => hfold'
    rw [Node.renumber, renumber_nextNumber hx, nextNumber_next]
  | binary op x y =>
    rw [hs] at hops hfold hfold'
    obtain ⟨hx, hy⟩ := Form.forall_operands_binary.1 hops
    refine ensures_fresh (fun i => .binary i op x y) (fun i => .binary i op (s.copy x) (s.copy y))
      (fun _ => rfl) ?_ (by simp [Node.isSymbol, Node.name?]) (fun _ => hops) (fun _ => hfold)
      fun _ => hfold'
    rw [Node.renumber, renumber_nextNumber hx, renumber_nextNumber hy, nextNumber_next]

theorem ensures_unary (b : Builder) (u : Unary) {x x' : Node K} (hx : s.Shows x x') :
    s.Ensures (b.unary u x) (b.unary u x') Shows := by
  rw [hx.2]
  exact ensures_make b (f := .unary u x) (by simpa [Form.operands] using hx.1)

theorem ensures_binary (b : Builder) (op : Binary) {x y x' y' : Node K} (hx : s.Shows x x')
    (hy : s.Shows y y') : s.Ensures (b.binary op x y) (b.binary op x' y') Shows := by
  rw [hx.2, hy.2]
  exact ensures_make b (f := .binary op x y) (Form.forall_operands_binary.2 ⟨hx.1, hy.1⟩)

/-! ## Derivative rules -/

/-- A program makes copies from copies. -/
theorem ensures_runAll (b : Builder) :
    ∀ (ops : List SlopeOp) {s : Mirror K} {w w' : List (Node K)} {e e' : Node K},
      List.Forall₂ s.Shows w w' → s.Shows e e' →
      s.Ensures (SlopeOp.runAll (b.algebra K) e ops w) (SlopeOp.runAll (b.algebra K) e' ops w')
        fun s' => List.Forall₂ s'.Shows
  | [], s, w, w', e, e', hw, _ => .pure hw
  | op :: ops, s, w, w', e, e', hw, he => by
    have hop : s.Ensures (op.run (b.algebra K) e w) (op.run (b.algebra K) e' w') Shows := by
      cases op with
      | literal l => exact ensures_newConst _
      | unary u i => exact ensures_unary b u (forall₂_getD hw he i)
      | binary op i j => exact ensures_binary b op (forall₂_getD hw he i) (forall₂_getD hw he j)
    refine hop.bind fun s' n n' hs hn => ensures_runAll b ops ?_ (he.mono hs)
    exact List.rel_append (hw.imp fun _ _ h => h.mono hs) (.cons hn .nil)

theorem ensures_slope (b : Builder) (u : Unary) {x x' f f' : Node K} (hx : s.Shows x x')
    (hf : s.Shows f f') :
    s.Ensures (u.slope (b.algebra K) x f) (u.slope (b.algebra K) x' f') Shows := by
  rw [Unary.slope_eq, Unary.slope_eq]
  exact (ensures_runAll b _ (.cons hx (.cons hx (.cons hf .nil))) hx).bind fun s' w w' hs hw =>
    .pure (forall₂_getD hw (hx.mono hs) _)

theorem ensures_slopes (b : Builder) (op : Binary) {x x' y y' f f' : Node K} (hx : s.Shows x x')
    (hy : s.Shows y y') (hf : s.Shows f f') :
    s.Ensures (op.slopes (b.algebra K) x y f) (op.slopes (b.algebra K) x' y' f') fun s' d d' =>
      s'.Shows d.1 d'.1 ∧ s'.Shows d.2 d'.2 := by
  rw [Binary.slopes_eq, Binary.slopes_eq]
  exact (ensures_runAll b _ (.cons hx (.cons hy (.cons hf .nil))) hx).bind fun s' w w' hs hw =>
    .pure ⟨forall₂_getD hw (hx.mono hs) _, forall₂_getD hw (hx.mono hs) _⟩

end Mirror

/-! ## Nodes of one heap -/

theorem Heap.ensures_binary_mem {q : Heap K} (b : Builder) (op : Binary) {x y : Node K} (hx : x ∈ q)
    (hy : y ∈ q) : q.Ensures (b.binary op x y) fun r n => n ∈ r :=
  (ensures_make b (Form.forall_operands_binary.2 ⟨hx, hy⟩)).imp fun _ _ _ hn => hn.1

theorem Heap.ensures_slope_mem {q : Heap K} (b : Builder) (u : Unary) {x f : Node K} (hx : x ∈ q)
    (hf : f ∈ q) : q.Ensures (u.slope (b.algebra K) x f) fun r d => d ∈ r := by
  have hshows : ∀ {n : Node K}, n ∈ q → (Mirror.start q le_rfl le_rfl).Shows n n := fun hn =>
    ⟨hn, (Node.renumber_id _).symm⟩
  exact ((Mirror.ensures_slope b u (hshows hx) (hshows hf)).imp fun s _ d _ hd =>
    hd.mem_image).image

theorem Heap.ensures_slopes_mem {q : Heap K} (b : Builder) (op : Binary) {x y f : Node K}
    (hx : x ∈ q) (hy : y ∈ q) (hf : f ∈ q) :
    q.Ensures (op.slopes (b.algebra K) x y f) fun r d => d.1 ∈ r ∧ d.2 ∈ r := by
  have hshows : ∀ {n : Node K}, n ∈ q → (Mirror.start q le_rfl le_rfl).Shows n n := fun hn =>
    ⟨hn, (Node.renumber_id _).symm⟩
  exact ((Mirror.ensures_slopes b op (hshows hx) (hshows hy) (hshows hf)).imp fun s _ d _ hd =>
    ⟨hd.1.mem_image, hd.2.mem_image⟩).image

/-! ## One direction beside several -/

/-- The first list has one entry, which goes with the entry of the second list at `d`. -/
structure Beside {α β : Type} (R : α → β → Prop) (P : β → Prop) (d : Nat) (as : List α)
    (bs : List β) : Prop where
  entry : ∃ a b, as = [a] ∧ bs[d]? = some b ∧ R a b
  all : ∀ b ∈ bs, P b

namespace Beside

variable {α β γ δ : Type} {R R' : α → β → Prop} {P P' : β → Prop} {d : Nat} {as : List α}
  {bs : List β}

theorem imp (h : Beside R P d as bs) (hR : ∀ a b, R a b → R' a b) (hP : ∀ b, P b → P' b) :
    Beside R' P' d as bs := by
  obtain ⟨⟨a, b, has, hb, hab⟩, hall⟩ := h
  exact ⟨⟨a, b, has, hb, hR a b hab⟩, fun b hb => hP b (hall b hb)⟩

theorem map {f : α → γ} {g : β → δ} {S : γ → δ → Prop} {Q : δ → Prop} (h : Beside R P d as bs)
    (hR : ∀ a b, R a b → S (f a) (g b)) (hP : ∀ b, P b → Q (g b)) :
    Beside S Q d (as.map f) (bs.map g) := by
  obtain ⟨⟨a, b, rfl, hb, hab⟩, hall⟩ := h
  refine ⟨⟨f a, g b, rfl, by rw [List.getElem?_map, hb]; rfl, hR a b hab⟩, fun e he => ?_⟩
  obtain ⟨b', hb', rfl⟩ := List.mem_map.1 he
  exact hP b' (hall b' hb')

theorem zip {S : γ → δ → Prop} {Q : δ → Prop} {cs : List γ} {ds : List δ}
    (h : Beside R P d as bs) (h' : Beside S Q d cs ds) :
    Beside (fun p q => R p.1 q.1 ∧ S p.2 q.2) (fun q => P q.1 ∧ Q q.2) d (as.zip cs)
      (bs.zip ds) := by
  obtain ⟨⟨a, b, rfl, hb, hab⟩, hall⟩ := h
  obtain ⟨⟨a', b', rfl, hb', hab'⟩, hall'⟩ := h'
  refine ⟨⟨(a, a'), (b, b'), rfl, ?_, hab, hab'⟩, fun e he => ?_⟩
  · rw [List.getElem?_zip_eq_some]
    exact ⟨hb, hb'⟩
  · exact ⟨hall _ (List.of_mem_zip he).1, hall' _ (List.of_mem_zip he).2⟩

end Beside

namespace Mirror

variable {s : Mirror K} {α β γ δ : Type}

/-- What is done for each of several directions is, at its place, done for the one direction. -/
theorem ensures_mapM_at {x : Build β} {y : γ → Build δ} {S : Mirror K → β → δ → Prop}
    {Q : Heap K → δ → Prop} (hS : ∀ r r' b e, r ≤ r' → S r b e → S r' b e)
    (hQ : ∀ q q' e, q ≤ q' → Q q e → Q q' e) :
    ∀ {s : Mirror K} {cs : List γ} {d : Nat} {c : γ}, cs[d]? = some c →
      (∀ s', s ≤ s' → s'.Ensures x (y c) fun r b e => S r b e ∧ Q r.image e) →
      (∀ q c', s.image ≤ q → c' ∈ cs → q.Ensures (y c') Q) →
      s.Ensures x (cs.mapM y) fun r b es =>
        (∃ e, es[d]? = some e ∧ S r b e) ∧ ∀ e ∈ es, Q r.image e
  | s, [], d, c, hc, _, _ => by simp at hc
  | s, c' :: cs, 0, c, hc, hxy, hy => by
    obtain rfl : c' = c := by simpa using hc
    rw [List.mapM_cons, ← bind_pure x]
    refine (hxy s (le_refl s)).bind fun s' b e hs he => ?_
    have hrest : s'.image.Ensures (cs.mapM y) fun q es =>
        (∀ e ∈ es, Q q e) ∧ es.map (fun _ => ()) = cs.map fun _ => () :=
      Heap.Ensures.mapM hQ cs fun q c' hq hc' =>
        (hy q c' (le_trans hs.2.1 hq) (List.mem_cons_of_mem _ hc')).imp fun _ _ _ h => ⟨h, rfl⟩
    refine Ensures.aside hrest fun s'' es hs' hes => .pure ⟨⟨e, rfl, hS _ _ _ _ hs' he.1⟩, ?_⟩
    exact List.forall_mem_cons.2 ⟨hQ _ _ _ hs'.2.1 he.2, hes.1⟩
  | s, c' :: cs, d + 1, c, hc, hxy, hy => by
    rw [List.mapM_cons]
    refine Ensures.aside (hy _ c' (le_refl _) List.mem_cons_self) fun s' e' hs he' => ?_
    rw [← bind_pure x]
    refine (ensures_mapM_at hS hQ (d := d) (by simpa using hc)
      (fun s'' hs' => hxy s'' (le_trans hs hs')) fun q c'' hq hc'' =>
        hy q c'' (le_trans hs.2.1 hq) (List.mem_cons_of_mem _ hc'')).bind
      fun s'' b es hs' hes => .pure ⟨hes.1, ?_⟩
    exact List.forall_mem_cons.2 ⟨hQ _ _ _ hs'.2.1 he', hes.2⟩

/-- Builds for all directions keep the one direction beside the others. -/
theorem Ensures.mapM {x : α → Build β} {y : γ → Build δ} {R : α → γ → Prop} {P : γ → Prop}
    {S : Mirror K → β → δ → Prop} {Q : Heap K → δ → Prop}
    (hS : ∀ r r' b e, r ≤ r' → S r b e → S r' b e) (hQ : ∀ q q' e, q ≤ q' → Q q e → Q q' e)
    {d : Nat} {as : List α} {cs : List γ} (h : Beside R P d as cs)
    (hxy : ∀ s' a c, s ≤ s' → R a c → P c →
      s'.Ensures (x a) (y c) fun r b e => S r b e ∧ Q r.image e)
    (hy : ∀ q c, s.image ≤ q → P c → q.Ensures (y c) Q) :
    s.Ensures (as.mapM x) (cs.mapM y) fun r => Beside (S r) (Q r.image) d := by
  obtain ⟨⟨a, c, rfl, hc, hac⟩, hall⟩ := h
  rw [List.mapM_cons, ← bind_pure (cs.mapM y)]
  refine (ensures_mapM_at hS hQ hc
    (fun s' hs => hxy s' a c hs hac (hall c (List.mem_of_getElem? hc)))
    fun q c' hq hc' => hy q c' hq (hall c' hc')).bind fun s' b es hs hes => ?_
  obtain ⟨⟨e, he, hbe⟩, hall'⟩ := hes
  exact .pure ⟨⟨b, e, rfl, he, hbe⟩, hall'⟩

/-- Steps that go together, one pair after the other. -/
theorem Ensures.foldlM {S : α → γ → Prop} {I : Mirror K → β → δ → Prop} {f : β → α → Build β}
    {g : δ → γ → Build δ} {as : List α} {cs : List γ} (h : List.Forall₂ S as cs) :
    ∀ {s : Mirror K}, (∀ s' a c b e, s ≤ s' → S a c → I s' b e → s'.Ensures (f b a) (g e c) I) →
      ∀ {b e}, I s b e → s.Ensures (as.foldlM f b) (cs.foldlM g e) I := by
  induction h with
  | nil => exact fun _ _ _ hI => .pure hI
  | cons hac _ ih =>
    intro s hstep b e hI
    rw [List.foldlM_cons, List.foldlM_cons]
    refine (hstep s _ _ b e (le_refl s) hac hI).bind fun s' b' e' hs hI' => ?_
    exact ih (fun s'' a c b e hs' => hstep s'' a c b e (le_trans hs hs')) hI'

end Mirror

end Tangent
