import Mathlib.Algebra.Ring.Defs
import Tangent.Proofs.Reals
import Tangent.Proofs.Seeding
import Tangent.Proofs.Slopes

/-!
# Forward derivatives have the values of tangents

Over a commutative ring of scalars (`Scalar.Exact`) the tangent of a node is a number : it is given
for the input nonzeros, zero for constants, and a sum of products with the partial derivatives for
operations (`Node.tangent`). The forward sweep makes, for every node of a tape and every direction,
a node whose value is that number (`Tape.Swept`). One step of the sweep appends the tangents of one
more node (`Tape.ensures_tangents`), and the sweep takes one step after the other
(`Tape.ensures_forwardSweep`).
-/

set_option linter.unusedSectionVars false

namespace Tangent

/-- A commutative ring of scalars : constants are folded exactly, and the identities of the
simplifier hold. -/
class Scalar.Exact (R : Type) [CommRing R] [Scalar R] : Prop extends Scalar.Lawful R where
  zero_eq : (Scalar.zero : R) = 0
  add_eq : ∀ a b : R, Scalar.binary .add a b = a + b
  mul_eq : ∀ a b : R, Scalar.binary .mul a b = a * b

variable {R : Type} [CommRing R] [Scalar R]

/-- The tangent of a node, where `seed` gives the tangent of each symbol by its number. -/
def Node.tangent (env seed : Nat → R) : Node R → R
  | .const _ _ => 0
  | .symbol id _ => seed id
  | .unary id u x =>
    u.slopeAt (x.eval env) ((Node.unary id u x).eval env) * x.tangent env seed
  | .binary id op x y =>
    let d := op.slopesAt (x.eval env) (y.eval env) ((Node.binary id op x y).eval env)
    d.1 * x.tangent env seed + d.2 * y.tangent env seed

/-! ## Nodes and their values -/

namespace Heap

variable {p q : Heap R} {env : Nat → R}

/-- The nodes are on the heap, and these are their values. -/
def Holds (p : Heap R) (env : Nat → R) (ns : List (Node R)) (vs : List R) : Prop :=
  (∀ n ∈ ns, n ∈ p) ∧ ns.map (·.eval env) = vs

theorem Holds.mono (hpq : p ≤ q) {ns : List (Node R)} {vs : List R} (h : p.Holds env ns vs) :
    q.Holds env ns vs :=
  ⟨fun n hn => mem_of_le hpq (h.1 n hn), h.2⟩

theorem Holds.map_eval {ns : List (Node R)} {vs : List R} (h : p.Holds env ns vs) (f : R → R) :
    ns.map (fun n => f (n.eval env)) = vs.map f := by
  rw [← h.2, List.map_map]
  rfl

theorem map_zip_eq_zipWith {α : Type} (v : α → R) (f : R → R → R) (xs ys : List α) :
    (xs.zip ys).map (fun s => f (v s.1) (v s.2)) = List.zipWith f (xs.map v) (ys.map v) := by
  rw [List.zipWith_map, List.zip, List.map_zipWith]

theorem Holds.map_zip_eval {ns ms : List (Node R)} {vs us : List R} (hn : p.Holds env ns vs)
    (hm : p.Holds env ms us) (f : R → R → R) :
    (ns.zip ms).map (fun s => f (s.1.eval env) (s.2.eval env)) = List.zipWith f vs us := by
  rw [map_zip_eq_zipWith, hn.2, hm.2]

theorem holds_replicate {α : Type} {zero : Node R} (hzero : zero ∈ p ∧ zero.eval env = 0)
    {v : α → R} {xs : List α} (hv : ∀ x ∈ xs, v x = 0) :
    p.Holds env (List.replicate xs.length zero) (xs.map v) := by
  refine ⟨fun n hn => List.eq_of_mem_replicate hn ▸ hzero.1, ?_⟩
  rw [List.map_replicate, hzero.2, eq_comm]
  exact List.map_eq_replicate_iff.2 hv

/-- Nodes that are made one after the other have the values that each was made with. -/
theorem ensures_mapM (env : Nat → R) {α : Type} {f : α → Build (Node R)} {g : α → R} {xs : List α}
    (hf : ∀ q a, p ≤ q → a ∈ xs → q.Ensures (f a) fun r n => n ∈ r ∧ n.eval env = g a) :
    p.Ensures (xs.mapM f) fun q ns => q.Holds env ns (xs.map g) :=
  Ensures.mapM (P := fun q n => n ∈ q) (fun _ _ _ hqr hn => mem_of_le hqr hn) xs hf

variable [Scalar.Exact R] (env) (b : Builder)

theorem ensures_zero :
    p.Ensures (Node.newConst Scalar.zero) fun q n => n ∈ q ∧ n.eval env = 0 :=
  (ensures_newConst _).imp fun _ _ _ hn =>
    ⟨hn.1, (eval_of_value? env hn.2).trans Scalar.Exact.zero_eq⟩

theorem ensures_mul {x y : Node R} (hx : x ∈ p) (hy : y ∈ p) :
    p.Ensures (b.binary .mul x y) fun q n => n ∈ q ∧ n.eval env = x.eval env * y.eval env :=
  (ensures_binary env b .mul hx hy).imp fun _ _ _ hn =>
    ⟨hn.1, hn.2.trans (Scalar.Exact.mul_eq _ _)⟩

theorem ensures_add {x y : Node R} (hx : x ∈ p) (hy : y ∈ p) :
    p.Ensures (b.binary .add x y) fun q n => n ∈ q ∧ n.eval env = x.eval env + y.eval env :=
  (ensures_binary env b .add hx hy).imp fun _ _ _ hn =>
    ⟨hn.1, hn.2.trans (Scalar.Exact.add_eq _ _)⟩

/-- A sum of two products. -/
theorem ensures_combine {x y x' y' : Node R} (hx : x ∈ p) (hy : y ∈ p) (hx' : x' ∈ p)
    (hy' : y' ∈ p) :
    p.Ensures (do
      let left ← b.binary .mul x y
      let right ← b.binary .mul x' y'
      b.binary .add left right) fun q n =>
        n ∈ q ∧ n.eval env = x.eval env * y.eval env + x'.eval env * y'.eval env := by
  refine (ensures_mul env b hx hy).bind fun q l hpq hl => ?_
  refine (ensures_mul env b (mem_of_le hpq hx') (mem_of_le hpq hy')).bind
    fun r r' hqr hr => ?_
  refine (ensures_add env b (mem_of_le hqr hl.1) hr.1).imp fun s n _ hn => ⟨hn.1, ?_⟩
  rw [hn.2, hl.2, hr.2]

end Heap

namespace Tape

variable {t : Tape R} {openEnded : Bool} {p q : Heap R} {env : Nat → R} {b : Builder}
  {seed : List (SparseMatrix R)} {seeds : List (List (SparseMatrix R))}

/-! ## Directions -/

/-- The tangents of the symbols in a direction : those of the input nonzeros are the values of
their seeds, and those of other symbols are zero. -/
def direction (t : Tape R) (env : Nat → R) (seed : List (SparseMatrix R)) (id : Nat) : R :=
  (((nonzerosOf t.inputs).zip (nonzerosOf seed)).find? (·.1.id == id)).elim 0 (·.2.eval env)

/-- The tangent of a node in a direction. -/
def tangentOf (t : Tape R) (env : Nat → R) (n : Node R) (seed : List (SparseMatrix R)) : R :=
  n.tangent env (t.direction env seed)

theorem tangentOf_unary {id : Nat} {u : Unary} {x : Node R} :
    t.tangentOf env (.unary id u x) seed =
      u.slopeAt (x.eval env) ((Node.unary id u x).eval env) * t.tangentOf env x seed :=
  rfl

theorem tangentOf_binary {id : Nat} {op : Binary} {x y : Node R} {d : R × R}
    (hd : d = op.slopesAt (x.eval env) (y.eval env) ((Node.binary id op x y).eval env)) :
    t.tangentOf env (.binary id op x y) seed =
      d.1 * t.tangentOf env x seed + d.2 * t.tangentOf env y seed :=
  hd ▸ rfl

theorem find?_zip_of_nodup {α : Type} :
    ∀ {ns : List (Node R)} {xs : List α} {i : Nat} {n : Node R} {x : α},
      (ns.map Node.id).Nodup → ns[i]? = some n → xs[i]? = some x →
      (ns.zip xs).find? (·.1.id == n.id) = some (n, x)
  | [], xs, i, n, x, _, hn, _ => by simp at hn
  | m :: ns, [], i, n, x, _, _, hx => by simp at hx
  | m :: ns, y :: xs, 0, n, x, _, hn, hx => by
    simp_all
  | m :: ns, y :: xs, i + 1, n, x, hd, hn, hx => by
    rw [List.map_cons, List.nodup_cons] at hd
    have hne : m.id ≠ n.id := fun he =>
      hd.1 (he ▸ List.mem_map_of_mem (List.mem_of_getElem? hn))
    rw [List.zip_cons_cons, List.find?_cons_of_neg (by simpa using hne)]
    exact find?_zip_of_nodup hd.2 hn hx

/-- The tangent of an input nonzero is the value of its seed. -/
theorem Layout.tangentOf_input (h : t.Layout openEnded) {i : Nat} {n s : Node R}
    (hn : (nonzerosOf t.inputs)[i]? = some n) (hs : (nonzerosOf seed)[i]? = some s) :
    t.tangentOf env n seed = s.eval env := by
  have hsym := h.symbols n (List.mem_of_getElem? hn)
  have hfind := find?_zip_of_nodup h.distinct hn hs
  cases n with
  | symbol id name => exact congrArg (Option.elim · 0 (·.2.eval env)) hfind
  | _ => cases hsym

/-- The tangent of a symbol that is no input is zero. -/
theorem Layout.direction_rest (h : t.Layout openEnded) {i : Nat} {n : Node R}
    (hn : t.nodes[i]? = some n) (hi : t.width ≤ i) (hs : n.isSymbol) :
    t.direction env seed n.id = 0 := by
  have hmem : n ∈ t.nodes.drop t.width := by
    refine List.mem_of_getElem? (i := i - t.width) ?_
    rw [List.getElem?_drop, Nat.add_sub_cancel' hi, hn]
  obtain ⟨-, hmet⟩ := h.rest n hmem hs
  have hfind : ((nonzerosOf t.inputs).zip (nonzerosOf seed)).find? (·.1.id == n.id) = none := by
    refine List.find?_eq_none.2 fun x hx he => hmet (met_iff.2 ⟨x.1, ?_, by simpa using he⟩)
    exact (List.of_mem_zip hx).1
  rw [direction, hfind]
  rfl

/-! ## The values of sensitivities -/

/-- What the sensitivities are is said node by node and direction by direction. -/
theorem map_sensitivities {matrices : List (SparseMatrix R)} {entry : Nat → Node R → Node R}
    {v : Node R → List (SparseMatrix R) → R}
    (h : ∀ d s, seeds[d]? = some s → ∀ n ∈ nonzerosOf matrices, (entry d n).eval env = v n s) :
    (sensitivities matrices seeds.length entry).map (·.map (·.nonzeros.map (·.eval env))) =
      seeds.map fun s => matrices.map (·.nonzeros.map (v · s)) := by
  refine List.ext_getElem? fun d => ?_
  rcases Nat.lt_or_ge d seeds.length with hd | hd
  · simp only [sensitivities, List.map_map, Function.comp_def, List.getElem?_map,
      List.getElem?_range hd, List.getElem?_eq_getElem hd, Option.map_some]
    refine congrArg some (List.map_congr_left fun m hm => List.map_congr_left fun n hn => ?_)
    exact h d _ (List.getElem?_eq_getElem hd) n (List.mem_flatMap.2 ⟨m, hm, hn⟩)
  · simp [sensitivities, hd]

/-! ## The sweep -/

/-- The tangents of the first `k` nodes, in all directions. -/
structure Swept (t : Tape R) (env : Nat → R) (seeds : List (List (SparseMatrix R))) (p : Heap R)
    (k : Nat) (w : Array (List (Node R))) : Prop where
  size : w.size = k
  row : ∀ i n, i < k → t.nodes[i]? = some n →
    p.Holds env (w.getD i []) (seeds.map (t.tangentOf env n))

theorem Swept.mono (hpq : p ≤ q) {k : Nat} {w : Array (List (Node R))}
    (h : t.Swept env seeds p k w) : t.Swept env seeds q k w :=
  ⟨h.size, fun i n hi hn => (h.row i n hi hn).mono hpq⟩

theorem Swept.push {k : Nat} {w : Array (List (Node R))} (h : t.Swept env seeds p k w)
    {n : Node R} (hn : t.nodes[k]? = some n) {row : List (Node R)}
    (hrow : p.Holds env row (seeds.map (t.tangentOf env n))) :
    t.Swept env seeds p (k + 1) (w.push row) :=
  ⟨by rw [Array.size_push, h.size],
    forall_row_push (P := fun n row => p.Holds env row (seeds.map (t.tangentOf env n))) h.size
      h.row hn hrow⟩

/-- The seeds are the tangents of the input nonzeros. -/
theorem Layout.swept_seedRows (h : t.Layout openEnded) {zero : Node R}
    (hseeds : ∀ s ∈ seeds, (∀ n ∈ nonzerosOf s, n ∈ p) ∧ (nonzerosOf s).length = t.width) :
    t.Swept env seeds p t.width (seedRows t.width zero seeds).toArray := by
  refine ⟨by simp [seedRows], fun i n hi hn => ?_⟩
  rw [h.getElem?_input hi] at hn
  have hget : (seedRows t.width zero seeds).toArray.getD i [] =
      seeds.map fun s => (nonzerosOf s).getD i zero := by
    simp [seedRows, nonzerosOf, hi]
  have hseed : ∀ s ∈ seeds, ∃ m, (nonzerosOf s)[i]? = some m ∧ (nonzerosOf s).getD i zero = m := by
    intro s hs
    have his : i < (nonzerosOf s).length := (hseeds s hs).2 ▸ hi
    exact ⟨_, List.getElem?_eq_getElem his, by simp [his]⟩
  rw [hget]
  constructor
  · intro m hm
    obtain ⟨s, hs, rfl⟩ := List.mem_map.1 hm
    obtain ⟨m, hm, he⟩ := hseed s hs
    exact he ▸ (hseeds s hs).1 m (List.mem_of_getElem? hm)
  · rw [List.map_map]
    refine List.map_congr_left fun s hs => ?_
    obtain ⟨m, hm, he⟩ := hseed s hs
    rw [Function.comp, he, h.tangentOf_input hn hm]

variable [Scalar.Exact R]

/-- One step of the sweep makes the tangents of one more node. -/
theorem Layout.ensures_tangents (h : t.Layout openEnded) (hp : ∀ n ∈ t.nodes, n ∈ p) {k : Nat}
    {w : Array (List (Node R))} (hw : t.Swept env seeds p k w) (hk : t.width ≤ k) {n : Node R}
    (hn : t.nodes[k]? = some n) {zero : Node R} (hzero : zero ∈ p ∧ zero.eval env = 0) :
    p.Ensures (b.tangents t seeds.length zero w n) fun q row =>
      q.Holds env row (seeds.map (t.tangentOf env n)) := by
  have hmem := hp n (List.mem_of_getElem? hn)
  cases n with
  | const id v => exact .pure (Heap.holds_replicate hzero fun _ _ => rfl)
  | symbol id name =>
    exact .pure (Heap.holds_replicate hzero fun _ _ => h.direction_rest hn hk rfl)
  | unary id u x =>
    obtain ⟨hlt, hx⟩ := h.getElem?_operand hp hn (x := x) (by simp [Node.operands])
    -- The operand stands before the node, so its tangents are there.
    have hrow := hw.row _ _ hlt hx
    refine (Heap.ensures_slope env b u (Heap.mem_of_unary hmem) hmem).bind fun q dx hpq hdx => ?_
    refine (Heap.ensures_mapM env fun r tx hqr htx => Heap.ensures_mul env b
      (Heap.mem_of_le hqr hdx.1) (Heap.mem_of_le (le_trans hpq hqr) (hrow.1 tx htx))).imp
      fun r row _ hr => ⟨hr.1, ?_⟩
    rw [hr.2, hdx.2, hrow.map_eval, List.map_map]
    exact List.map_congr_left fun s _ => tangentOf_unary.symm
  | binary id op x y =>
    obtain ⟨hltx, hx⟩ := h.getElem?_operand hp hn (x := x) (by simp [Node.operands])
    obtain ⟨hlty, hy⟩ := h.getElem?_operand hp hn (x := y) (by simp [Node.operands])
    have hrowx := hw.row _ _ hltx hx
    have hrowy := hw.row _ _ hlty hy
    refine (Heap.ensures_slopes env b op (Heap.mem_left hmem) (Heap.mem_right hmem) hmem).bind
      fun q d hpq hd => ?_
    obtain ⟨⟨hdx, hdy⟩, hslopes⟩ := hd
    refine (Heap.ensures_mapM env
      (g := fun s => d.1.eval env * s.1.eval env + d.2.eval env * s.2.eval env)
      fun r s hqr hs => ?_).imp fun r row _ hr => ⟨hr.1, ?_⟩
    · have hsx := Heap.mem_of_le (le_trans hpq hqr) (hrowx.1 _ (List.of_mem_zip hs).1)
      have hsy := Heap.mem_of_le (le_trans hpq hqr) (hrowy.1 _ (List.of_mem_zip hs).2)
      exact Heap.ensures_combine env b (Heap.mem_of_le hqr hdx) hsx (Heap.mem_of_le hqr hdy) hsy
    · rw [hr.2, hrowx.map_zip_eval hrowy fun a c => d.1.eval env * a + d.2.eval env * c,
        List.zipWith_map, List.zipWith_self]
      exact List.map_congr_left fun s _ => (tangentOf_binary hslopes).symm

/-- The sweep makes the tangents of all nodes in all directions. -/
theorem Layout.ensures_forwardSweep (h : t.Layout openEnded) (hp : ∀ n ∈ t.nodes, n ∈ p)
    (hseeds : ∀ s ∈ seeds, (∀ n ∈ nonzerosOf s, n ∈ p) ∧ (nonzerosOf s).length = t.width)
    {zero : Node R} (hzero : zero ∈ p ∧ zero.eval env = 0) :
    p.Ensures (b.forwardSweep t zero seeds) fun q w => t.Swept env seeds q t.nodes.length w := by
  refine h.ensures_forwardSweep_of (I := t.Swept env seeds) (fun q k w n hpq hk hn hw => ?_)
    (h.swept_seedRows hseeds)
  exact (h.ensures_tangents (fun m hm => Heap.mem_of_le hpq (hp m hm)) hw hk hn
    ⟨Heap.mem_of_le hpq hzero.1, hzero.2⟩).imp fun r row hqr hrow => (hw.mono hqr).push hn hrow

end Tape

/-! ## Sensitivities of the outputs -/

namespace Builder

variable {t : Tape R} {openEnded : Bool} {p : Heap R} {seeds : List (List (SparseMatrix R))}

theorem ensures_pushForward [Scalar.Exact R] (env : Nat → R) (b : Builder) (h : t.Layout openEnded)
    (hp : ∀ n ∈ t.nodes, n ∈ p) (hout : ∀ n ∈ Tape.nonzerosOf t.outputs, n ∈ p)
    (hseeds : ∀ s ∈ seeds, (∀ n ∈ Tape.nonzerosOf s, n ∈ p) ∧
      s.map (·.nnz) = t.inputs.map (·.nnz)) :
    p.Ensures (b.pushForward t seeds) fun _ sens =>
      sens.map (·.map (·.nonzeros.map (·.eval env))) =
        seeds.map fun s => t.outputs.map (·.nonzeros.map (t.tangentOf env · s)) := by
  refine (Heap.ensures_zero env).bind fun q zero hpq hzero => ?_
  have hseeds' : ∀ s ∈ seeds, (∀ n ∈ Tape.nonzerosOf s, n ∈ q) ∧
      (Tape.nonzerosOf s).length = t.width := fun s hs =>
    ⟨fun n hn => Heap.mem_of_le hpq ((hseeds s hs).1 n hn), by
      rw [Tape.length_nonzerosOf, (hseeds s hs).2, Tape.width_eq_sum]⟩
  refine (h.ensures_forwardSweep (fun n hn => Heap.mem_of_le hpq (hp n hn)) hseeds' hzero).bind
    fun r w hqr hw => .pure (Tape.map_sensitivities fun d s hs n hn => ?_)
  have hlt := h.position_output_lt hn
  have hrow := hw.row _ n hlt (Tape.getElem?_position hp (hout n hn) (h.outputs n hn))
  rw [Heap.eval_getD, hrow.2, List.getD_eq_getElem?_getD, List.getElem?_map, hs]
  rfl

end Builder

/-- Forward derivatives agree with numeric tangents : from accepted seeds the derivatives of the
outputs are made, and in every direction and for every assignment of the symbols the value of each
is the tangent of its output nonzero. -/
theorem Tape.forward_eval_eq_tangent [Scalar.Exact R] [Numeral R] {openEnded : Bool}
    {name : String} {inputs outputs : List (SparseMatrix R)} {t : Tape R}
    (ht : layOut openEnded name inputs outputs = .ok t) {seeds : List (List (SparseMatrix R))}
    {next : Nat} (hs : t.Seeding .input seeds next) (b : Builder) :
    ∃ sens next', (b.forward t seeds).run next = (.ok sens, next') ∧
      ∀ env, sens.map (·.map (·.nonzeros.map (·.eval env))) =
        seeds.map fun seed =>
          outputs.map (·.nonzeros.map (·.tangent env (t.direction env seed))) := by
  have h := layout_of_layOut ht
  obtain ⟨p, rfl, hp, hout, hseeds⟩ := hs.exists_heap h
  refine ⟨_, _, Builder.forward_run hs.accepted p.next, fun env => ?_⟩
  obtain ⟨q, -, -, hv⟩ := Builder.ensures_pushForward env b h hp hout hseeds
  obtain ⟨-, -, rfl, -⟩ := layOut_ok ht
  exact hv

instance : Scalar.Exact ℝ where
  lawful := Reals.lawful_self
  zero_eq := rfl
  add_eq _ _ := rfl
  mul_eq _ _ := rfl

/-! ## A wave

The product of two inputs, times its sine. This output is listed twice, and the output between is
an input. -/

namespace Wave

def x : Node ℝ := .symbol 1 "x"
def y : Node ℝ := .symbol 2 "y"
def phase : Node ℝ := .binary 3 .mul x y
def sine : Node ℝ := .unary 4 .sin phase
def height : Node ℝ := .binary 5 .mul phase sine

def tape : Tape ℝ where
  name := "wave"
  inputs := [.scalar x, .scalar y]
  outputs := [.scalar height, .scalar x, .scalar height]
  toOrder := .ofNodes [x, y, phase, sine, height] (by decide)

/-- A direction, by symbols. -/
def direction : List (SparseMatrix ℝ) :=
  [.scalar (.symbol 6 "dx"), .scalar (.symbol 7 "dy")]

def nodes : List (Node ℝ) :=
  [.symbol 7 "dy", .symbol 6 "dx", height, sine, phase, y, x]

theorem layOut_tape : Tape.layOut false "wave" tape.inputs tape.outputs = .ok tape := by
  rfl

theorem built : Built 8 nodes := by
  have hleaves : Built 3 [y, x] := ((Built.start 1).symbol "x").symbol "y"
  have hphase : Built 4 [phase, y, x] :=
    hleaves.binary_of_step (b := ⟨0⟩) (by simp) (by simp) (by rfl)
  have hsine : Built 5 [sine, phase, y, x] :=
    hphase.unary_of_step (b := ⟨0⟩) (by simp) (by rfl)
  have hheight : Built 6 [height, sine, phase, y, x] :=
    hsine.binary_of_step (b := ⟨0⟩) (by simp) (by simp) (by rfl)
  exact (hheight.symbol "dx").symbol "dy"

theorem seeding_direction : tape.Seeding .input [direction] 8 where
  accepted := by rfl
  filled := by simp [tape, Tape.sideOf, SparseMatrix.filled_scalar]
  seeds_filled := by simp [direction, SparseMatrix.filled_scalar]
  built := ⟨nodes, built, by simp [tape, nodes, Tape.nonzerosOf, SparseMatrix.scalar],
    by simp [tape, nodes, Tape.nonzerosOf, SparseMatrix.scalar],
    by simp +contextual [direction, nodes, Tape.nonzerosOf, SparseMatrix.scalar]⟩

end Wave

theorem Tape.forward_eval_eq_tangent_wave :
    layOut false "wave" Wave.tape.inputs Wave.tape.outputs = .ok Wave.tape ∧
      Wave.tape.Seeding .input [Wave.direction] 8 ∧
      ∃ sens next', ((⟨0⟩ : Builder).forward Wave.tape [Wave.direction]).run 8 = (.ok sens, next') ∧
        ∀ env, sens.map (·.map (·.nonzeros.map (·.eval env))) =
          let phase := env 1 * env 2
          let dphase := env 2 * env 6 + env 1 * env 7
          let dheight := Real.sin phase * dphase + phase * (Real.cos phase * dphase)
          [[[dheight], [env 6], [dheight]]] :=
  ⟨Wave.layOut_tape, Wave.seeding_direction,
    forward_eval_eq_tangent Wave.layOut_tape Wave.seeding_direction ⟨0⟩⟩

end Tangent
