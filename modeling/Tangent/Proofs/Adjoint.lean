import Mathlib.Algebra.BigOperators.Intervals
import Tangent.Proofs.Tangents

/-!
# Forward and backward derivatives are adjoint

Backward derivatives start from numbers at the outputs, and every node passes its own on to its
operands (`Tape.passed`). Weighted with the tangents of the nodes, the numbers at the positions
before a node keep their sum when the node passes its number on (`Tape.weigh_passed`) : the tangent
of a node is made of those of its operands with the same derivatives. So the whole sweep moves the
sum from the outputs to the inputs (`Tape.weigh_pulled`).

The nodes that the backward sweep makes have these numbers as their values, where an adjoint that
is not there counts as zero (`Tape.Borne`). Again one step is compared first
(`Tape.Layout.ensures_passBack`), then the sweep.
-/

set_option linter.unusedSectionVars false

open Finset

namespace Tangent

variable {R : Type} [CommRing R] [Scalar R]

/-! ## Adjoints as numbers -/

/-- Add to the numbers at a position, in every direction. -/
def addAt (A : Nat → Nat → R) (i : Nat) (c : Nat → R) : Nat → Nat → R :=
  Function.update A i (A i + c)

theorem addAt_eq_of_eq_zero {c : Nat → R} {e : Nat} (hc : c e = 0) (A : Nat → Nat → R)
    (i j : Nat) : addAt A i c j e = A j e := by
  by_cases hj : j = i
  · subst hj
    simp [addAt, hc]
  · rw [addAt, Function.update_of_ne hj]

/-- The sum of the numbers at the first `k` positions in a direction, each times its weight. -/
def weigh (k : Nat) (A : Nat → Nat → R) (e : Nat) (v : Nat → R) : R :=
  ∑ j ∈ range k, A j e * v j

theorem weigh_addAt {k i : Nat} (hi : i < k) (A : Nat → Nat → R) (c : Nat → R) (e : Nat)
    (v : Nat → R) : weigh k (addAt A i c) e v = weigh k A e v + c e * v i := by
  have hterm : ∀ j ∈ range k, addAt A i c j e * v j =
      A j e * v j + if i = j then c e * v i else 0 := by
    intro j _
    by_cases hj : i = j
    · subst hj
      simp [addAt, add_mul]
    · simp [addAt, Function.update_of_ne (Ne.symm hj), hj]
  rw [weigh, sum_congr rfl hterm, sum_add_distrib, sum_ite_eq, if_pos (mem_range.2 hi), weigh]

theorem weigh_foldl_addAt {k e : Nat} {v : Nat → R} :
    ∀ {cs : List (Nat × (Nat → R))} (A : Nat → Nat → R), (∀ c ∈ cs, c.1 < k) →
      weigh k (cs.foldl (fun A c => addAt A c.1 c.2) A) e v =
        weigh k A e v + (cs.map fun c => c.2 e * v c.1).sum
  | [], A, _ => by simp
  | c :: cs, A, hcs => by
    rw [List.foldl_cons, weigh_foldl_addAt _ fun c' hc' => hcs c' (List.mem_cons_of_mem _ hc'),
      weigh_addAt (hcs c List.mem_cons_self), List.map_cons, List.sum_cons, add_assoc]

namespace Tape

variable {t : Tape R} {openEnded : Bool} {p q : Heap R} {env : Nat → R}
  {seed : List (SparseMatrix R)}

/-- A node passes its adjoints on to its operands, times the derivatives. -/
def passed (t : Tape R) (env : Nat → R) (A : Nat → Nat → R) : Node R × Nat → Nat → Nat → R
  | (.const _ _, _) | (.symbol _ _, _) => A
  | (.unary id u x, i) =>
    addAt A (t.position x) (u.slopeAt (x.eval env) ((Node.unary id u x).eval env) • A i)
  | (.binary id op x y, i) =>
    let d := op.slopesAt (x.eval env) (y.eval env) ((Node.binary id op x y).eval env)
    addAt (addAt A (t.position x) (d.1 • A i)) (t.position y) (d.2 • A i)

/-- All nodes pass their adjoints on, from the last to the first. -/
def pulled (t : Tape R) (env : Nat → R) (A : Nat → Nat → R) : Nat → Nat → R :=
  t.nodes.zipIdx.reverse.foldl (t.passed env) A

/-- The tangent at a position in a direction. -/
def tangentAt (t : Tape R) (env : Nat → R) (seed : List (SparseMatrix R)) (i : Nat) : R :=
  t.nodes[i]?.elim 0 (t.tangentOf env · seed)

theorem tangentAt_of_getElem? {i : Nat} {n : Node R} (hn : t.nodes[i]? = some n) :
    t.tangentAt env seed i = t.tangentOf env n seed := by
  rw [tangentAt, hn]
  rfl

/-- A node moves its share of the weighted sum to the positions before it. -/
theorem Layout.weigh_passed (h : t.Layout openEnded) (hp : ∀ n ∈ t.nodes, n ∈ p) {i : Nat}
    {n : Node R} (hn : t.nodes[i]? = some n) (hi : t.width ≤ i) (A : Nat → Nat → R) (e : Nat) :
    weigh i (t.passed env A (n, i)) e (t.tangentAt env seed) =
      weigh (i + 1) A e (t.tangentAt env seed) := by
  rw [weigh, weigh, sum_range_succ, tangentAt_of_getElem? hn, ← weigh, ← weigh]
  -- What remains is the rule for tangents, read from the node to its operands.
  cases n with
  | const id v => simp [passed, tangentOf, Node.tangent]
  | symbol id name =>
    have hzero : t.tangentOf env (.symbol id name) seed = 0 := h.direction_rest hn hi rfl
    rw [hzero, mul_zero, add_zero]
    rfl
  | unary id u x =>
    obtain ⟨hlt, hx⟩ := h.getElem?_operand hp hn (x := x) (by simp [Node.operands])
    rw [passed, weigh_addAt hlt, tangentAt_of_getElem? hx, tangentOf_unary, Pi.smul_apply,
      smul_eq_mul]
    ring
  | binary id op x y =>
    obtain ⟨hltx, hx⟩ := h.getElem?_operand hp hn (x := x) (by simp [Node.operands])
    obtain ⟨hlty, hy⟩ := h.getElem?_operand hp hn (x := y) (by simp [Node.operands])
    rw [passed, weigh_addAt hlty, weigh_addAt hltx, tangentAt_of_getElem? hx,
      tangentAt_of_getElem? hy, tangentOf_binary rfl, Pi.smul_apply, Pi.smul_apply, smul_eq_mul,
      smul_eq_mul]
    ring

theorem passed_eq_of_eq_zero {A : Nat → Nat → R} {i e : Nat} (hA : A i e = 0) (n : Node R)
    (j : Nat) : t.passed env A (n, i) j e = A j e := by
  have hsmul : ∀ d : R, (d • A i) e = 0 := fun d => by
    rw [Pi.smul_apply, hA, smul_zero]
  cases n with
  | const id v => rfl
  | symbol id name => rfl
  | unary id u x => exact addAt_eq_of_eq_zero (hsmul _) _ _ _
  | binary id op x y =>
    exact (addAt_eq_of_eq_zero (hsmul _) _ _ _).trans (addAt_eq_of_eq_zero (hsmul _) _ _ _)

theorem passed_of_isSymbol {n : Node R} (hs : n.isSymbol) (A : Nat → Nat → R) (i : Nat) :
    t.passed env A (n, i) = A := by
  cases n with
  | symbol id name => rfl
  | _ => cases hs

/-- The nodes that are no inputs move their shares one after the other, from the last on. -/
theorem Layout.weigh_foldl_passed (h : t.Layout openEnded) (hp : ∀ n ∈ t.nodes, n ∈ p)
    (A : Nat → Nat → R) (e : Nat) :
    ∀ (ns : List (Node R)) {done : List (Node R)}, t.nodes = done ++ ns → t.width ≤ done.length →
      weigh done.length ((ns.zipIdx done.length).reverse.foldl (t.passed env) A) e
        (t.tangentAt env seed) = weigh t.nodes.length A e (t.tangentAt env seed)
  | [], done, hns, _ => by simp [hns]
  | n :: ns, done, hns, hi => by
    have hn : t.nodes[done.length]? = some n := by simp [hns]
    have hlen : (done ++ [n]).length = done.length + 1 := by simp
    have hdone : t.nodes = (done ++ [n]) ++ ns := by simp [hns]
    have ih := h.weigh_foldl_passed hp A e ns hdone (by omega)
    rw [hlen] at ih
    rw [List.zipIdx_cons, List.reverse_cons, List.foldl_append, List.foldl_cons, List.foldl_nil,
      h.weigh_passed hp hn hi, ih]

theorem foldl_passed_of_isSymbol (A : Nat → Nat → R) :
    ∀ (ns : List (Node R × Nat)), (∀ n ∈ ns, n.1.isSymbol) → ns.foldl (t.passed env) A = A
  | [], _ => rfl
  | n :: ns, hs => by
    rw [List.foldl_cons, passed_of_isSymbol (hs n List.mem_cons_self)]
    exact foldl_passed_of_isSymbol A ns fun m hm => hs m (List.mem_cons_of_mem _ hm)

/-- The sweep moves the weighted sum over all nodes to the inputs. -/
theorem Layout.weigh_pulled (h : t.Layout openEnded) (hp : ∀ n ∈ t.nodes, n ∈ p)
    (A : Nat → Nat → R) (e : Nat) :
    weigh t.width (t.pulled env A) e (t.tangentAt env seed) =
      weigh t.nodes.length A e (t.tangentAt env seed) := by
  have hwidth := h.length_take_width
  have hsplit := List.take_append_drop t.width t.nodes
  have hzip : t.nodes.zipIdx =
      (t.nodes.take t.width).zipIdx ++ (t.nodes.drop t.width).zipIdx t.width := by
    conv_lhs => rw [← hsplit, List.zipIdx_append, hwidth, Nat.zero_add]
  have hinputs : ∀ n ∈ (t.nodes.take t.width).zipIdx.reverse, n.1.isSymbol := by
    intro n hn
    rw [h.take_width, List.mem_reverse] at hn
    exact h.symbols n.1 (List.fst_mem_of_mem_zipIdx hn)
  rw [pulled, hzip, List.reverse_append, List.foldl_append, foldl_passed_of_isSymbol _ _ hinputs,
    ← h.weigh_foldl_passed hp A e _ hsplit.symm (le_of_eq hwidth.symm), hwidth]

end Tape

/-! ## Adjoints as nodes -/

/-- The value of an adjoint, which is zero if it is not there. -/
def adjointValue (env : Nat → R) (a : Option (Node R)) : R :=
  a.elim 0 (·.eval env)

@[simp] theorem adjointValue_none (env : Nat → R) : adjointValue env none = 0 :=
  rfl

@[simp] theorem adjointValue_some (env : Nat → R) (n : Node R) :
    adjointValue env (some n) = n.eval env :=
  rfl

/-- The node that stands for an adjoint that is not there has its value. -/
theorem eval_getD_zero {env : Nat → R} {zero : Node R} (hzero : zero.eval env = 0)
    (a : Option (Node R)) : (a.getD zero).eval env = adjointValue env a := by
  cases a with
  | none => exact hzero
  | some n => rfl

namespace Heap

variable {p q : Heap R} {env : Nat → R} {count : Nat} {row row' : Builder.Adjoints R}
  {c c' : Nat → R}

/-- The adjoints of a node are on the heap, and `c` gives their values in all directions. -/
structure Bears (p : Heap R) (env : Nat → R) (count : Nat) (row : Builder.Adjoints R)
    (c : Nat → R) : Prop where
  mem : ∀ a ∈ row, ∀ n ∈ a, n ∈ p
  values : row.map (adjointValue env) = (List.range count).map c

theorem Bears.mono (hpq : p ≤ q) (h : p.Bears env count row c) : q.Bears env count row c :=
  ⟨fun a ha n hn => mem_of_le hpq (h.mem a ha n hn), h.values⟩

theorem Bears.adjointValue_getD (h : p.Bears env count row c) {e : Nat} (he : e < count) :
    adjointValue env (row.getD e none) = c e := by
  have hget := congrArg (·[e]?) h.values
  simp only [List.getElem?_map, List.getElem?_range he, Option.map_some] at hget
  obtain ⟨a, ha, hc⟩ := Option.map_eq_some_iff.1 hget
  rw [List.getD_eq_getElem?_getD, ha]
  exact hc

variable [Scalar.Exact R] (b : Builder)

/-- Contributions that are dropped have the value zero. -/
theorem ensures_accumulate {a v : Option (Node R)} (ha : ∀ n ∈ a, n ∈ p) (hv : ∀ n ∈ v, n ∈ p) :
    p.Ensures (b.accumulate a v) fun q r => (∀ n ∈ r, n ∈ q) ∧
      adjointValue env r = adjointValue env a + adjointValue env v := by
  have hzero : ∀ n : Node R, n.isZero → n.eval env = 0 := fun n hn =>
    (Scalar.Lawful.lawful.value_of_isZero env hn).trans Scalar.Exact.zero_eq
  cases v with
  | none =>
    have hkeep : b.accumulate a none = pure a := by cases a <;> rfl
    rw [hkeep]
    exact .pure ⟨ha, (add_zero _).symm⟩
  | some v =>
    by_cases hv0 : v.isZero
    · have hkeep : b.accumulate a (some v) = pure a := by
        cases a <;> simp [Builder.accumulate, hv0]
      rw [hkeep]
      refine .pure ⟨ha, ?_⟩
      rw [adjointValue_some, hzero v hv0, add_zero]
    · cases a with
      | none =>
        have htake : b.accumulate none (some v) = pure (some v) := by
          simp [Builder.accumulate, hv0]
        rw [htake]
        exact .pure ⟨hv, (zero_add _).symm⟩
      | some a =>
        have hadd : b.accumulate (some a) (some v) = some <$> b.binary .add a v := by
          simp [Builder.accumulate, hv0]
        rw [hadd, map_eq_pure_bind]
        exact (ensures_add env b (ha a rfl) (hv v rfl)).bind fun q n _ hn =>
          .pure ⟨by simpa using hn.1, hn.2⟩

/-- Rows are added direction by direction. -/
theorem Bears.ensures_add (h : p.Bears env count row c) (h' : p.Bears env count row' c') :
    p.Ensures ((row.zip row').mapM fun (a, v) => b.accumulate a v) fun q sum =>
      q.Bears env count sum (c + c') := by
  refine (Ensures.mapM (P := fun q a => ∀ n ∈ a, n ∈ q) (f := adjointValue env)
    (g := fun s => adjointValue env s.1 + adjointValue env s.2)
    (fun _ _ _ hqr ha n hn => mem_of_le hqr (ha n hn)) (row.zip row') fun q s hpq hs => ?_).imp
    fun q sum _ hsum => ⟨hsum.1, ?_⟩
  · obtain ⟨ha, hv⟩ := List.of_mem_zip hs
    exact ensures_accumulate b ((h.mono hpq).mem _ ha) ((h'.mono hpq).mem _ hv)
  · rw [hsum.2, map_zip_eq_zipWith (adjointValue env) (· + ·), h.values, h'.values,
      List.zipWith_map, List.zipWith_self]
    rfl

/-- A row is multiplied direction by direction. -/
theorem Bears.ensures_mul (h : p.Bears env count row c) {d : Node R} (hd : d ∈ p) :
    p.Ensures (row.mapM (·.mapM (b.binary .mul d))) fun q row' =>
      q.Bears env count row' (d.eval env • c) := by
  refine (Ensures.mapM (P := fun q a => ∀ n ∈ a, n ∈ q) (f := adjointValue env)
    (g := fun a => d.eval env * adjointValue env a)
    (fun _ _ _ hqr ha n hn => mem_of_le hqr (ha n hn)) row fun q a hpq ha => ?_).imp
    fun q row' _ hrow => ⟨hrow.1, ?_⟩
  · cases a with
    | none => exact .pure ⟨by simp, (mul_zero _).symm⟩
    | some n =>
      have hmap : (some n).mapM (b.binary .mul d) = some <$> b.binary .mul d n := rfl
      rw [hmap, map_eq_pure_bind]
      exact (Heap.ensures_mul env b (mem_of_le hpq hd) ((h.mono hpq).mem _ ha n rfl)).bind
        fun r m _ hm => .pure ⟨by simpa using hm.1, hm.2⟩
  · have hscale : row.map (fun a => d.eval env * adjointValue env a) =
        (row.map (adjointValue env)).map (d.eval env * ·) := by
      rw [List.map_map]
      rfl
    rw [hrow.2, hscale, h.values, List.map_map]
    rfl

end Heap

namespace Tape

variable {t : Tape R} {openEnded : Bool} {p q : Heap R} {env : Nat → R} {count : Nat}
  {A : Nat → Nat → R} {w : Array (Builder.Adjoints R)}

/-- The adjoints of all nodes are on the heap, and `A` gives their values. -/
structure Borne (t : Tape R) (env : Nat → R) (count : Nat) (p : Heap R) (A : Nat → Nat → R)
    (w : Array (Builder.Adjoints R)) : Prop where
  size : w.size = t.nodes.length
  row : ∀ i, i < t.nodes.length → p.Bears env count (w.getD i []) (A i)

theorem Borne.mono (hpq : p ≤ q) (h : t.Borne env count p A w) : t.Borne env count q A w :=
  ⟨h.size, fun i hi => (h.row i hi).mono hpq⟩

theorem Borne.congr (h : t.Borne env count p A w) {A' : Nat → Nat → R}
    (hA : ∀ i e, e < count → A' i e = A i e) : t.Borne env count p A' w :=
  ⟨h.size, fun i hi => ⟨(h.row i hi).mem, (h.row i hi).values.trans
    (List.map_congr_left fun e he => (hA i e (List.mem_range.1 he)).symm)⟩⟩

variable [Scalar.Exact R] (b : Builder)

theorem Borne.ensures_accumulateAt (h : t.Borne env count p A w) {i : Nat}
    (hi : i < t.nodes.length) {row : Builder.Adjoints R} {c : Nat → R}
    (hrow : p.Bears env count row c) :
    p.Ensures (b.accumulateAt w i row) fun q w' => t.Borne env count q (addAt A i c) w' := by
  refine ((h.row i hi).ensures_add b hrow).bind fun q sum hpq hsum => .pure ⟨?_, fun j hj => ?_⟩
  · rw [Array.size_setIfInBounds, h.size]
  · by_cases hij : i = j
    · subst hij
      simpa [addAt, Array.getElem?_setIfInBounds, h.size, hi] using hsum
    · have hget : (w.setIfInBounds i sum).getD j [] = w.getD j [] := by
        simp [hij]
      rw [hget, addAt, Function.update_of_ne (Ne.symm hij)]
      exact (h.row j hj).mono hpq

/-- A step of the sweep passes the adjoints of one node on, as numbers are passed on. -/
theorem Layout.ensures_passBack (h : t.Layout openEnded) (hp : ∀ n ∈ t.nodes, n ∈ p)
    (hw : t.Borne env count p A w) {i : Nat} {n : Node R} (hn : t.nodes[i]? = some n) :
    p.Ensures (b.passBack t n i w) fun q w' => t.Borne env count q (t.passed env A (n, i)) w' := by
  have hi := (List.getElem?_eq_some_iff.1 hn).1
  have hmem := hp n (List.mem_of_getElem? hn)
  have hrow := hw.row i hi
  have hoperand : ∀ x ∈ n.operands, t.position x < t.nodes.length := fun x hx =>
    (h.position_operand_lt hn hx).trans hi
  unfold Builder.passBack
  by_cases hnone : (w.getD i []).all (·.isNone)
  · -- Nothing is passed on, and nothing would change if it were : the adjoints are zero.
    rw [if_pos hnone]
    refine .pure (hw.congr fun j e he => passed_eq_of_eq_zero ?_ n j)
    rw [← hrow.adjointValue_getD he, List.getD_eq_getElem?_getD]
    cases ha : (w.getD i [])[e]? with
    | none => rfl
    | some a =>
      have := List.all_eq_true.1 hnone a (List.mem_of_getElem? ha)
      rw [Option.isNone_iff_eq_none.1 this]
      rfl
  · rw [if_neg hnone]
    cases n with
    | const id v => exact .pure hw
    | symbol id name => exact .pure hw
    | unary id u x =>
      refine (Heap.ensures_slope env b u (Heap.mem_of_unary hmem) hmem).bind
        fun q d hpq hd => ?_
      refine ((hrow.mono hpq).ensures_mul b hd.1).bind fun r row hqr hrow' => ?_
      rw [hd.2] at hrow'
      exact (hw.mono (le_trans hpq hqr)).ensures_accumulateAt b
        (hoperand x (by simp [Node.operands])) hrow'
    | binary id op x y =>
      refine (Heap.ensures_slopes env b op (Heap.mem_left hmem) (Heap.mem_right hmem) hmem).bind
        fun q d hpq hd => ?_
      obtain ⟨⟨hdx, hdy⟩, hslopes⟩ := hd
      refine ((hrow.mono hpq).ensures_mul b hdx).bind fun r rowx hqr hrowx => ?_
      refine ((hw.mono (le_trans hpq hqr)).ensures_accumulateAt b
        (hoperand x (by simp [Node.operands])) hrowx).bind fun s w' hrs hw' => ?_
      have hps := le_trans (le_trans hpq hqr) hrs
      refine ((hrow.mono hps).ensures_mul b (Heap.mem_of_le (le_trans hqr hrs) hdy)).bind
        fun s' rowy hss' hrowy => ?_
      refine ((hw'.mono hss').ensures_accumulateAt b
        (hoperand y (by simp [Node.operands])) hrowy).imp fun _ w'' _ hw'' => ?_
      rw [passed, ← hslopes]
      exact hw''

theorem Layout.ensures_foldlM_passBack (h : t.Layout openEnded) :
    ∀ (ns : List (Node R × Nat)) {p : Heap R} {A : Nat → Nat → R} {w : Array (Builder.Adjoints R)},
      (∀ m ∈ ns, t.nodes[m.2]? = some m.1) → (∀ n ∈ t.nodes, n ∈ p) → t.Borne env count p A w →
      p.Ensures (ns.foldlM (fun w (n, i) => b.passBack t n i w) w) fun q w' =>
        t.Borne env count q (ns.foldl (t.passed env) A) w'
  | [], p, A, w, _, _, hw => .pure hw
  | (n, i) :: ns, p, A, w, hns, hp, hw => by
    obtain ⟨hn, hns⟩ := List.forall_mem_cons.1 hns
    rw [List.foldlM_cons]
    refine (h.ensures_passBack b hp hw hn).bind fun q w' hpq hw' => ?_
    exact h.ensures_foldlM_passBack ns hns (fun m hm => Heap.mem_of_le hpq (hp m hm)) hw'

/-! ## The start at the outputs -/

theorem borne_replicate (env : Nat → R) (t : Tape R) (p : Heap R) :
    t.Borne env count p 0 (Array.replicate t.nodes.length (List.replicate count none)) := by
  refine ⟨Array.size_replicate, fun i hi => ?_⟩
  have hget : (Array.replicate t.nodes.length (List.replicate count none)).getD i [] =
      (List.replicate count none : Builder.Adjoints R) := by
    simp [hi]
  rw [hget]
  refine ⟨fun a ha n hn => ?_, ?_⟩
  · rw [List.eq_of_mem_replicate ha] at hn
    cases hn
  · exact List.ext_getElem (by simp) fun e _ _ => by simp

theorem bears_map_some {row : List (Node R)} (hlen : row.length = count)
    (hrow : ∀ n ∈ row, n ∈ p) (zero : Node R) :
    p.Bears env count (row.map some) fun e => (row.getD e zero).eval env := by
  refine ⟨fun a ha n hn => ?_, List.ext_getElem (by simp [hlen]) fun e he _ => ?_⟩
  · obtain ⟨m, hm, rfl⟩ := List.mem_map.1 ha
    exact Option.some.inj hn ▸ hrow m hm
  · have he' : e < row.length := by simpa using he
    simp [he']

/-- What rows of nodes add at their positions. -/
def contributions (env : Nat → R) (zero : Node R) (rows : List (Nat × List (Node R))) :
    List (Nat × (Nat → R)) :=
  rows.map fun r => (r.1, fun e => (r.2.getD e zero).eval env)

theorem Borne.ensures_foldlM_accumulateAt (zero : Node R) :
    ∀ (rows : List (Nat × List (Node R))) {p : Heap R} {A : Nat → Nat → R}
      {w : Array (Builder.Adjoints R)},
      (∀ r ∈ rows, r.1 < t.nodes.length ∧ r.2.length = count ∧ ∀ n ∈ r.2, n ∈ p) →
      t.Borne env count p A w →
      p.Ensures (rows.foldlM (fun w (i, row) => b.accumulateAt w i (row.map some)) w) fun q w' =>
        t.Borne env count q
          ((contributions env zero rows).foldl (fun A c => addAt A c.1 c.2) A) w'
  | [], p, A, w, _, hw => .pure hw
  | (i, row) :: rows, p, A, w, hrows, hw => by
    obtain ⟨⟨hi, hlen, hrow⟩, hrows⟩ := List.forall_mem_cons.1 hrows
    rw [List.foldlM_cons]
    refine (hw.ensures_accumulateAt b hi (bears_map_some hlen hrow zero)).bind
      fun q w' hpq hw' => ?_
    exact Borne.ensures_foldlM_accumulateAt zero rows (fun r hr => ⟨(hrows r hr).1,
      (hrows r hr).2.1, fun n hn => Heap.mem_of_le hpq ((hrows r hr).2.2 n hn)⟩) hw'

/-- The adjoints before any is passed on, as numbers. -/
def started (t : Tape R) (env : Nat → R) (zero : Node R) (seeds : List (List (SparseMatrix R))) :
    Nat → Nat → R :=
  (contributions env zero (t.results.flatten.zip
    (seedRows t.results.flatten.length zero seeds))).foldl (fun A c => addAt A c.1 c.2) 0

variable {seeds : List (List (SparseMatrix R))}

/-- The nodes that the backward sweep makes have the values of adjoints that are passed on as
numbers. -/
theorem Layout.ensures_backwardSweep (env : Nat → R) (h : t.Layout openEnded)
    (hp : ∀ n ∈ t.nodes, n ∈ p) {zero : Node R} (hzero : zero ∈ p)
    (hseeds : ∀ s ∈ seeds, ∀ n ∈ nonzerosOf s, n ∈ p) :
    p.Ensures (b.backwardSweep t zero seeds) fun q w =>
      t.Borne env seeds.length q (t.pulled env (t.started env zero seeds)) w := by
  have hrows : ∀ r ∈ t.results.flatten.zip (seedRows t.results.flatten.length zero seeds),
      r.1 < t.nodes.length ∧ r.2.length = seeds.length ∧ ∀ n ∈ r.2, n ∈ p := by
    intro r hr
    obtain ⟨hpos, hrow⟩ := List.of_mem_zip hr
    rw [flatten_results] at hpos
    obtain ⟨n, hn, hrn⟩ := List.mem_map.1 hpos
    obtain ⟨k, -, hrk⟩ := List.mem_map.1 hrow
    refine ⟨hrn ▸ h.position_output_lt hn, by simp [← hrk], fun m hm => ?_⟩
    rw [← hrk, List.map_map] at hm
    obtain ⟨s, hs, rfl⟩ := List.mem_map.1 hm
    exact Heap.getD_mem (hseeds s hs) hzero k
  refine (Borne.ensures_foldlM_accumulateAt b zero _ hrows (borne_replicate env t p)).bind
    fun q w hpq hw => ?_
  refine h.ensures_foldlM_passBack b _ (fun m hm => ?_)
    (fun n hn => Heap.mem_of_le hpq (hp n hn)) hw
  rw [List.mem_reverse] at hm
  exact List.mem_zipIdx_iff_getElem?.1 hm

/-! ## Both ends of the sum -/

/-- The adjoints at the start, weighted with the tangents of all nodes : the seeds of the outputs
times the tangents of the outputs. -/
theorem Layout.weigh_started (h : t.Layout openEnded) (hp : ∀ n ∈ t.nodes, n ∈ p)
    (hout : ∀ n ∈ nonzerosOf t.outputs, n ∈ p) {zero : Node R} {e : Nat}
    {aseed : List (SparseMatrix R)} (he : seeds[e]? = some aseed)
    (hlen : (nonzerosOf aseed).length = (nonzerosOf t.outputs).length)
    (fseed : List (SparseMatrix R)) :
    weigh t.nodes.length (t.started env zero seeds) e (t.tangentAt env fseed) =
      (List.zipWith (· * ·) ((nonzerosOf aseed).map (·.eval env))
        ((nonzerosOf t.outputs).map (t.tangentOf env · fseed))).sum := by
  have hpos : ∀ n ∈ nonzerosOf t.outputs, t.nodes[t.position n]? = some n := fun n hn =>
    getElem?_position hp (hout n hn) (h.outputs n hn)
  have hzero : weigh t.nodes.length (0 : Nat → Nat → R) e (t.tangentAt env fseed) = 0 := by
    simp [weigh]
  rw [started, weigh_foldl_addAt, hzero, zero_add]
  · refine congrArg List.sum (List.ext_getElem ?_ fun k hk _ => ?_)
    · simp [contributions, seedRows, flatten_results, hlen]
    · have hk' : k < (nonzerosOf t.outputs).length := by
        simpa [contributions, seedRows, flatten_results] using hk
      have hseed : (aseed.flatMap (·.nonzeros))[k]? = some (nonzerosOf aseed)[k] :=
        List.getElem?_eq_getElem _
      have htangent : t.tangentAt env fseed (t.position (nonzerosOf t.outputs)[k]) =
          t.tangentOf env (nonzerosOf t.outputs)[k] fseed :=
        tangentAt_of_getElem? (hpos _ (List.getElem_mem hk'))
      simp [contributions, seedRows, flatten_results, he, hseed, htangent]
  · intro c hc
    obtain ⟨r, hr, rfl⟩ := List.mem_map.1 hc
    obtain ⟨hpos', -⟩ := List.of_mem_zip hr
    rw [flatten_results] at hpos'
    obtain ⟨n, hn, hrn⟩ := List.mem_map.1 hpos'
    exact hrn ▸ h.position_output_lt hn

/-- The adjoints of the inputs times their seeds, as a weighted sum. -/
theorem Layout.weigh_inputs (h : t.Layout openEnded) {fseed : List (SparseMatrix R)}
    (hlen : (nonzerosOf fseed).length = t.width) (A : Nat → Nat → R) (e : Nat) :
    weigh t.width A e (t.tangentAt env fseed) =
      (List.zipWith (· * ·) ((nonzerosOf t.inputs).map fun n => A (t.position n) e)
        ((nonzerosOf fseed).map (·.eval env))).sum := by
  have hlist : (List.range t.width).map (fun j => A j e * t.tangentAt env fseed j) =
      List.zipWith (· * ·) ((nonzerosOf t.inputs).map fun n => A (t.position n) e)
        ((nonzerosOf fseed).map (·.eval env)) := by
    refine List.ext_getElem (by simp [hlen, width_eq]) fun j hj _ => ?_
    have hj : j < t.width := by simpa using hj
    have hn := List.getElem?_eq_getElem (width_eq t ▸ hj : j < (nonzerosOf t.inputs).length)
    have hs := List.getElem?_eq_getElem (hlen.symm ▸ hj : j < (nonzerosOf fseed).length)
    have htangent : t.tangentAt env fseed j = t.tangentOf env _ fseed :=
      tangentAt_of_getElem? ((h.getElem?_input hj).trans hn)
    simp [h.position_input hn, htangent, h.tangentOf_input hn hs]
  rw [← hlist]
  rfl

end Tape

/-! ## Sensitivities of the inputs -/

namespace Builder

variable {t : Tape R} {openEnded : Bool} {p : Heap R} {seeds : List (List (SparseMatrix R))}

/-- In every direction of the inputs, the sensitivities of the inputs give the tangents of the
outputs, weighted with the seeds of the outputs. -/
theorem ensures_pullBack [Scalar.Exact R] (env : Nat → R) (b : Builder) (h : t.Layout openEnded)
    (hp : ∀ n ∈ t.nodes, n ∈ p) (hout : ∀ n ∈ Tape.nonzerosOf t.outputs, n ∈ p)
    (hseeds : ∀ s ∈ seeds, (∀ n ∈ Tape.nonzerosOf s, n ∈ p) ∧
      s.map (·.nnz) = t.outputs.map (·.nnz)) :
    p.Ensures (b.pullBack t seeds) fun _ sens => ∀ (e : Nat) (aseed asen : List (SparseMatrix R)),
      seeds[e]? = some aseed → sens[e]? = some asen →
      ∀ fseed : List (SparseMatrix R), (Tape.nonzerosOf fseed).length = t.width →
        (List.zipWith (· * ·) ((Tape.nonzerosOf asen).map (·.eval env))
          ((Tape.nonzerosOf fseed).map (·.eval env))).sum =
        (List.zipWith (· * ·) ((Tape.nonzerosOf aseed).map (·.eval env))
          ((Tape.nonzerosOf t.outputs).map (t.tangentOf env · fseed))).sum := by
  refine (Heap.ensures_zero env).bind fun q zero hpq hzero => ?_
  have hq : ∀ n ∈ t.nodes, n ∈ q := fun n hn => Heap.mem_of_le hpq (hp n hn)
  refine (h.ensures_backwardSweep b env hq hzero.1 fun s hs n hn =>
    Heap.mem_of_le hpq ((hseeds s hs).1 n hn)).bind fun r w hqr hw => .pure ?_
  intro e aseed asen haseed hasen fseed hfseed
  obtain ⟨he, rfl⟩ := Tape.getElem?_sensitivities hasen
  have hlen : (Tape.nonzerosOf aseed).length = (Tape.nonzerosOf t.outputs).length := by
    rw [Tape.length_nonzerosOf, Tape.length_nonzerosOf,
      (hseeds aseed (List.mem_of_getElem? haseed)).2]
  rw [← h.weigh_started hp hout haseed hlen, ← h.weigh_pulled hp, h.weigh_inputs hfseed,
    Tape.nonzerosOf_map, List.map_map]
  refine congrArg (fun vs => (List.zipWith (· * ·) vs _).sum)
    (List.map_congr_left fun n hn => ?_)
  have hrow := hw.row (t.position n) (h.position_input_lt hn)
  rw [← hrow.adjointValue_getD he, ← eval_getD_zero hzero.2]
  rfl

end Builder

/-! ## Adjointness -/

/-- The sum of the products of the values of nonzeros that stand at one place. -/
def pairing (env : Nat → R) (xs ys : List (SparseMatrix R)) : R :=
  (List.zipWith (fun x y => (List.zipWith (· * ·) (x.nonzeros.map (·.eval env))
    (y.nonzeros.map (·.eval env))).sum) xs ys).sum

theorem pairing_eq (env : Nat → R) :
    ∀ {xs ys : List (SparseMatrix R)}, xs.map (·.nnz) = ys.map (·.nnz) →
      pairing env xs ys = (List.zipWith (· * ·) ((Tape.nonzerosOf xs).map (·.eval env))
        ((Tape.nonzerosOf ys).map (·.eval env))).sum
  | [], ys, h => by simp [pairing, Tape.nonzerosOf]
  | x :: xs, [], h => by simp at h
  | x :: xs, y :: ys, h => by
    obtain ⟨hxy, hrest⟩ := List.cons_eq_cons.1 h
    have hlen : (x.nonzeros.map (·.eval env)).length = (y.nonzeros.map (·.eval env)).length := by
      simpa [SparseMatrix.nnz] using hxy
    have ih := pairing_eq env hrest
    rw [pairing] at ih ⊢
    rw [List.zipWith_cons_cons, List.sum_cons, ih, Tape.nonzerosOf_cons, Tape.nonzerosOf_cons,
      List.map_append, List.map_append, List.zipWith_append hlen, List.sum_append]

theorem Tape.map_nonzerosOf (f : Node R → R) (ms : List (SparseMatrix R)) :
    (nonzerosOf ms).map f = (ms.map (·.nonzeros.map f)).flatten := by
  rw [nonzerosOf, List.map_flatMap, List.flatMap]

/-- Forward and backward derivatives are adjoint : from accepted seeds both are made, with a nonzero
for each nonzero of the other side, and in every pair of directions and for every assignment of the
symbols the seeds of the outputs pair with the derivatives of the outputs as the derivatives by the
inputs pair with the seeds of the inputs. -/
theorem Tape.forward_backward_adjoint [Scalar.Exact R] [Numeral R] {openEnded : Bool}
    {name : String} {inputs outputs : List (SparseMatrix R)} {t : Tape R}
    (ht : layOut openEnded name inputs outputs = .ok t)
    {fseeds aseeds : List (List (SparseMatrix R))} {next next' : Nat}
    (hf : t.Seeding .input fseeds next) (ha : t.Seeding .output aseeds next') (b b' : Builder) :
    ∃ fsens asens last last', (b.forward t fseeds).run next = (.ok fsens, last) ∧
      (b'.backward t aseeds).run next' = (.ok asens, last') ∧
      fsens.map (·.map (·.nnz)) = List.replicate fseeds.length (outputs.map (·.nnz)) ∧
      asens.map (·.map (·.nnz)) = List.replicate aseeds.length (inputs.map (·.nnz)) ∧
      ∀ (env : Nat → R) (d e : Nat) (fseed fsen aseed asen : List (SparseMatrix R)),
        fseeds[d]? = some fseed → fsens[d]? = some fsen →
        aseeds[e]? = some aseed → asens[e]? = some asen →
        pairing env aseed fsen = pairing env asen fseed := by
  have h := layout_of_layOut ht
  obtain ⟨-, rfl, rfl, -⟩ := layOut_ok ht
  obtain ⟨p, rfl, hp, hout, hfseeds⟩ := hf.exists_heap h
  obtain ⟨p', rfl, hp', hout', haseeds⟩ := ha.exists_heap h
  have hfshape := b.map_nnz_pushForward t fseeds p.next
  have hashape := b'.map_nnz_pullBack t aseeds p'.next
  refine ⟨_, _, _, _, Builder.forward_run hf.accepted p.next,
    Builder.backward_run ha.accepted p'.next, hfshape, hashape, ?_⟩
  intro env d e fseed fsen aseed asen hfseed hfsen haseed hasen
  obtain ⟨-, -, -, hforward⟩ := Builder.ensures_pushForward env b h hp hout hfseeds
  obtain ⟨-, -, -, hbackward⟩ := Builder.ensures_pullBack env b' h hp' hout' haseeds
  -- Both sides are the tangents of the outputs, weighted with the seeds of the outputs.
  have htangents : (nonzerosOf fsen).map (·.eval env) =
      (nonzerosOf t.outputs).map (t.tangentOf env · fseed) := by
    have hd := congrArg (·[d]?) hforward
    simp only [List.getElem?_map, hfsen, hfseed, Option.map_some, Option.some.injEq] at hd
    rw [map_nonzerosOf, map_nonzerosOf, hd]
  have hfnnz : fsen.map (·.nnz) = t.outputs.map (·.nnz) :=
    List.eq_of_mem_replicate (hfshape ▸ List.mem_map_of_mem (List.mem_of_getElem? hfsen))
  have hannz : asen.map (·.nnz) = t.inputs.map (·.nnz) :=
    List.eq_of_mem_replicate (hashape ▸ List.mem_map_of_mem (List.mem_of_getElem? hasen))
  have hfseed' := (hfseeds fseed (List.mem_of_getElem? hfseed)).2
  have haseed' := (haseeds aseed (List.mem_of_getElem? haseed)).2
  have hwidth : (nonzerosOf fseed).length = t.width := by
    rw [length_nonzerosOf, hfseed']
    rfl
  rw [pairing_eq env (haseed'.trans hfnnz.symm), pairing_eq env (hannz.trans hfseed'.symm),
    htangents, hbackward e aseed asen haseed hasen fseed hwidth]

namespace Wave

/-- Weights of the outputs, by symbols. -/
def weights : List (SparseMatrix ℝ) :=
  [.scalar (.symbol 8 "u"), .scalar (.symbol 9 "v"), .scalar (.symbol 10 "w")]

theorem built_weights :
    Built 11 ([.symbol 10 "w", .symbol 9 "v", .symbol 8 "u"] ++ nodes) :=
  ((built.symbol "u").symbol "v").symbol "w"

theorem seeding_weights : tape.Seeding .output [weights] 11 where
  accepted := by rfl
  filled := by simp [tape, Tape.sideOf, SparseMatrix.filled_scalar]
  seeds_filled := by simp [weights, SparseMatrix.filled_scalar]
  built := ⟨_, built_weights, by simp [tape, nodes, Tape.nonzerosOf, SparseMatrix.scalar],
    by simp [tape, nodes, Tape.nonzerosOf, SparseMatrix.scalar],
    by simp +contextual [weights, Tape.nonzerosOf, SparseMatrix.scalar]⟩

end Wave

theorem Tape.forward_backward_adjoint_wave :
    layOut false "wave" Wave.tape.inputs Wave.tape.outputs = .ok Wave.tape ∧
      Wave.tape.Seeding .input [Wave.direction] 8 ∧ Wave.tape.Seeding .output [Wave.weights] 11 ∧
      ∃ fsen asen last last',
        ((⟨0⟩ : Builder).forward Wave.tape [Wave.direction]).run 8 = (.ok [fsen], last) ∧
        ((⟨3⟩ : Builder).backward Wave.tape [Wave.weights]).run 11 = (.ok [asen], last') ∧
        ∀ env, pairing env Wave.weights fsen = pairing env asen Wave.direction := by
  refine ⟨Wave.layOut_tape, Wave.seeding_direction, Wave.seeding_weights, ?_⟩
  obtain ⟨fsens, asens, last, last', hforward, hbackward, hfshape, hashape, hpairing⟩ :=
    forward_backward_adjoint Wave.layOut_tape Wave.seeding_direction Wave.seeding_weights ⟨0⟩ ⟨3⟩
  obtain ⟨fsen, rfl, -⟩ := List.map_eq_singleton_iff.1 hfshape
  obtain ⟨asen, rfl, -⟩ := List.map_eq_singleton_iff.1 hashape
  exact ⟨fsen, asen, last, last', hforward, hbackward,
    fun env => hpairing env 0 0 _ _ _ _ rfl rfl rfl rfl⟩

end Tangent
