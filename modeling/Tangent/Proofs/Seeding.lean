import Tangent.Proofs.Heap
import Tangent.Proofs.LayOut
import Tangent.Tape.Derivatives

/-!
# Seeds and sensitivities

Derivatives along a tape are made from seeds, which are accepted exactly if they have the patterns
of the matrices of their side (`Tape.checkSeeds_ok`, `Tape.checkSeeds_of_patterns`). What is said
about the derivatives is said about nodes that were numbered from one supply (`Tape.Seeding`), and
on a heap a node of a tape stands at its position, after its operands. What every step of the
forward sweep keeps holds after the sweep (`Tape.Layout.ensures_forwardSweep_of`).
-/

set_option linter.unusedSectionVars false

namespace Tangent

variable {K : Type} [Scalar K]

namespace Tape

variable {t : Tape K} {openEnded : Bool} {p : Heap K} {seed : List (SparseMatrix K)}
  {seeds : List (List (SparseMatrix K))}

/-! ## Positions on a heap -/

theorem Layout.mem_heap (h : t.Layout openEnded) (hin : ∀ n ∈ nonzerosOf t.inputs, n ∈ p)
    (hout : ∀ n ∈ nonzerosOf t.outputs, n ∈ p) : ∀ n ∈ t.nodes, n ∈ p :=
  h.mem_graph (G := p.graph) hin hout

/-- A node stands at its position. -/
theorem getElem?_position (hp : ∀ n ∈ t.nodes, n ∈ p) {x : Node K} (hx : x ∈ p)
    (h : met t.nodes x.id) : t.nodes[t.position x]? = some x :=
  getElem?_position_of_graph (G := p.graph) hp hx h

/-- The operands of a node stand before it. -/
theorem Layout.getElem?_operand (h : t.Layout openEnded) (hp : ∀ n ∈ t.nodes, n ∈ p) {i : Nat}
    {n x : Node K} (hn : t.nodes[i]? = some n) (hx : x ∈ n.operands) :
    t.position x < i ∧ t.nodes[t.position x]? = some x :=
  h.getElem?_operand_of_graph (G := p.graph) hp hn hx

/-! ## The shape of seeds -/

theorem forM_ok {α : Type} {f : α → Result Unit} :
    ∀ {xs : List α}, xs.forM f = .ok () → ∀ x ∈ xs, f x = .ok ()
  | [], _, x, hx => by cases hx
  | a :: xs, h, x, hx => by
    rw [List.forM_eq_forM, List.forM_cons] at h
    cases ha : f a with
    | error e => rw [ha] at h; cases h
    | ok u =>
      rw [ha] at h
      rcases List.mem_cons.1 hx with rfl | hx
      · exact ha
      · exact forM_ok h x hx

/-- Seeds are accepted only if they have the patterns of the matrices of their side. -/
theorem checkSeeds_ok {side : Side} (hc : t.checkSeeds side seeds = .ok ()) (hs : seed ∈ seeds) :
    seed.map (·.pattern) = (t.sideOf side).map (·.pattern) := by
  obtain ⟨d, hd⟩ := List.getElem?_of_mem hs
  have hone := forM_ok hc (seed, d) (List.mem_zipIdx_iff_getElem?.2 hd)
  dsimp only at hone
  by_cases hl : seed.length = (t.sideOf side).length
  · rw [if_neg (not_not_intro hl)] at hone
    rw [← find?_zip_eq_none_iff SparseMatrix.pattern SparseMatrix.pattern seed _ 0 hl]
    cases hf : List.find? (fun p => decide (p.1.1.pattern ≠ p.1.2.pattern))
        (seed.zip (t.sideOf side)).zipIdx with
    | none => rfl
    | some p => rw [hf] at hone; cases hone
  · rw [if_pos hl] at hone
    cases hone

theorem forM_of_ok {α : Type} {f : α → Result Unit} :
    ∀ {xs : List α}, (∀ x ∈ xs, f x = .ok ()) → xs.forM f = .ok ()
  | [], _ => rfl
  | a :: xs, h => by
    rw [List.forM_eq_forM, List.forM_cons, h a List.mem_cons_self]
    exact forM_of_ok fun x hx => h x (List.mem_cons_of_mem _ hx)

/-- Seeds are accepted if they have the patterns of the matrices of their side. -/
theorem checkSeeds_of_patterns {side : Side}
    (h : ∀ seed ∈ seeds, seed.map (·.pattern) = (t.sideOf side).map (·.pattern)) :
    t.checkSeeds side seeds = .ok () := by
  refine forM_of_ok fun x hx => ?_
  obtain ⟨seed, d⟩ := x
  have hseed := h seed (List.mem_of_getElem? (List.mem_zipIdx_iff_getElem?.1 hx))
  have hlen : seed.length = (t.sideOf side).length := by simpa using congrArg List.length hseed
  dsimp only
  rw [if_neg (not_not_intro hlen),
    (find?_zip_eq_none_iff SparseMatrix.pattern SparseMatrix.pattern seed _ 0 hlen).2 hseed]
  rfl

/-- A direction has a seed for every nonzero of the matrices of its side. -/
theorem map_nnz_of_checkSeeds {side : Side} (hc : t.checkSeeds side seeds = .ok ())
    (hs : seed ∈ seeds) (hside : ∀ m ∈ t.sideOf side, m.Filled) (hseed : ∀ m ∈ seed, m.Filled) :
    seed.map (·.nnz) = (t.sideOf side).map (·.nnz) := by
  rw [List.map_congr_left hseed, List.map_congr_left hside]
  simpa [Function.comp_def] using congrArg (List.map Pattern.nnz) (checkSeeds_ok hc hs)

/-! ## The shape of sensitivities -/

theorem getElem?_sensitivities {matrices sen : List (SparseMatrix K)} {k d : Nat}
    {entry : Nat → Node K → Node K} (h : (sensitivities matrices k entry)[d]? = some sen) :
    d < k ∧ sen = matrices.map fun m => { m with nonzeros := m.nonzeros.map (entry d) } := by
  rw [sensitivities, List.getElem?_map] at h
  obtain ⟨d', hd, rfl⟩ := Option.map_eq_some_iff.1 h
  obtain ⟨hlt, rfl⟩ := List.getElem?_eq_some_iff.1 hd
  simpa using hlt

theorem nonzerosOf_map (f : Node K → Node K) (matrices : List (SparseMatrix K)) :
    nonzerosOf (matrices.map fun m => { m with nonzeros := m.nonzeros.map f }) =
      (nonzerosOf matrices).map f := by
  simp [nonzerosOf, List.map_flatMap, List.flatMap_map]

/-- There is a nonzero for each nonzero of the matrices, in every direction. -/
theorem map_nnz_sensitivities (matrices : List (SparseMatrix K)) (k : Nat)
    (entry : Nat → Node K → Node K) :
    (sensitivities matrices k entry).map (·.map (·.nnz)) =
      List.replicate k (matrices.map (·.nnz)) := by
  refine List.eq_replicate_iff.2 ⟨by simp [sensitivities], fun sizes hsizes => ?_⟩
  simp only [sensitivities, List.map_map, List.mem_map] at hsizes
  obtain ⟨d, -, rfl⟩ := hsizes
  simp [SparseMatrix.nnz]

/-! ## Accepted seeds -/

/-- The nodes of the tape and of the seeds were made with numbers from one supply, which now hands
out `next`. -/
def BuiltWith (t : Tape K) (seeds : List (List (SparseMatrix K))) (next : Nat) : Prop :=
  ∃ nodes, Built next nodes ∧ (∀ n ∈ nonzerosOf t.inputs, n ∈ nodes) ∧
    (∀ n ∈ nonzerosOf t.outputs, n ∈ nodes) ∧ ∀ seed ∈ seeds, ∀ n ∈ nonzerosOf seed, n ∈ nodes

/-- Seeds for one side of a tape that are accepted, with nodes from one supply of numbers. -/
structure Seeding (t : Tape K) (side : Side) (seeds : List (List (SparseMatrix K)))
    (next : Nat) : Prop where
  accepted : t.checkSeeds side seeds = .ok ()
  filled : ∀ m ∈ t.sideOf side, m.Filled
  seeds_filled : ∀ seed ∈ seeds, ∀ m ∈ seed, m.Filled
  built : t.BuiltWith seeds next

theorem Seeding.exists_heap {side : Side} {next : Nat} (hs : t.Seeding side seeds next)
    (h : t.Layout openEnded) :
    ∃ p : Heap K, p.next = next ∧ (∀ n ∈ t.nodes, n ∈ p) ∧ (∀ n ∈ nonzerosOf t.outputs, n ∈ p) ∧
      ∀ s ∈ seeds, (∀ n ∈ nonzerosOf s, n ∈ p) ∧
        s.map (·.nnz) = (t.sideOf side).map (·.nnz) := by
  obtain ⟨nodes, hbuilt, hin, hout, hseeds⟩ := hs.built
  obtain ⟨p, hnext, hp⟩ := hbuilt.exists_heap
  refine ⟨p, hnext, h.mem_heap (fun n hn => hp n (hin n hn)) (fun n hn => hp n (hout n hn)),
    fun n hn => hp n (hout n hn), fun s hs' => ⟨fun n hn => hp n (hseeds s hs' n hn), ?_⟩⟩
  exact map_nnz_of_checkSeeds hs.accepted hs' hs.filled (hs.seeds_filled s hs')

/-! ## The forward sweep -/

/-- The rows of the first nodes are kept when the row of the next node is added to them. -/
theorem forall_row_push {P : Node K → List (Node K) → Prop} {k : Nat} {w : Array (List (Node K))}
    (hsize : w.size = k) (hw : ∀ i n, i < k → t.nodes[i]? = some n → P n (w.getD i []))
    {n : Node K} (hn : t.nodes[k]? = some n) {row : List (Node K)} (hrow : P n row) :
    ∀ i m, i < k + 1 → t.nodes[i]? = some m → P m ((w.push row).getD i []) := by
  intro i m hi hm
  rcases Nat.lt_or_eq_of_le (Nat.le_of_lt_succ hi) with hi | rfl
  · have hget : (w.push row).getD i [] = w.getD i [] := by
      simp [Array.getElem?_push, hsize, Nat.ne_of_lt hi]
    rw [hget]
    exact hw i m hi hm
  · have hget : (w.push row).getD i [] = row := by
      simp [← hsize]
    obtain rfl : n = m := Option.some.inj (hn.symm.trans hm)
    rw [hget]
    exact hrow

/-- What holds of the rows of the inputs, and of the rows of the first nodes after every step, holds
of the rows of all nodes after the sweep. -/
theorem Layout.ensures_forwardSweep_of (h : t.Layout openEnded) {b : Builder} {zero : Node K}
    {I : Heap K → Nat → Array (List (Node K)) → Prop}
    (hstep : ∀ q k w n, p ≤ q → t.width ≤ k → t.nodes[k]? = some n → I q k w →
      q.Ensures (b.tangents t seeds.length zero w n) fun r row => I r (k + 1) (w.push row))
    (hstart : I p t.width (seedRows t.width zero seeds).toArray) :
    p.Ensures (b.forwardSweep t zero seeds) fun q w => I q t.nodes.length w := by
  have hrest : ∀ (ns done : List (Node K)) (q : Heap K) (w : Array (List (Node K))),
      p ≤ q → t.nodes = done ++ ns → t.width ≤ done.length → I q done.length w →
      q.Ensures (ns.foldlM (fun w n => return w.push (← b.tangents t seeds.length zero w n)) w)
        fun r w' => I r t.nodes.length w' := by
    intro ns
    induction ns with
    | nil =>
      intro done q w _ hns _ hw
      rw [List.append_nil] at hns
      exact .pure (hns ▸ hw)
    | cons n ns ih =>
      intro done q w hpq hns hk hw
      have hlen : (done ++ [n]).length = done.length + 1 := by simp
      rw [List.foldlM_cons, bind_assoc]
      refine (hstep q _ w n hpq hk (by simp [hns]) hw).bind fun r row hqr hrow => ?_
      rw [pure_bind]
      exact ih (done ++ [n]) r _ (le_trans hpq hqr) (by simp [hns]) (by omega) (hlen ▸ hrow)
  have hwidth := h.length_take_width
  exact hrest _ _ p _ (le_refl p) (List.take_append_drop t.width t.nodes).symm
    (le_of_eq hwidth.symm) (hwidth.symm ▸ hstart)

end Tape

/-! ## Steps of the backward sweep -/

namespace Builder

variable {t : Tape K} {b : Builder} {i : Nat} {w : Array (Adjoints K)}

/-- Pass adjoints on to an operand. -/
def passRow (b : Builder) (w : Array (Adjoints K)) (i : Nat) (dx : Node K) (row : Adjoints K) :
    Build (Array (Adjoints K)) := do
  b.accumulateAt w i (← row.mapM (·.mapM (b.binary .mul dx)))

theorem passBack_leaf {n : Node K} (h : n.operands = []) : b.passBack t n i w = pure w := by
  cases n with
  | const id v => exact ite_self _
  | symbol id name => exact ite_self _
  | _ => cases h

theorem passBack_unary {id : Nat} {u : Unary} {x : Node K} :
    b.passBack t (.unary id u x) i w =
      if (w.getD i []).all (·.isNone) then pure w else (do
        let dx ← u.slope (b.algebra K) x (.unary id u x)
        b.passRow w (t.position x) dx (w.getD i [])) :=
  rfl

theorem passBack_binary {id : Nat} {op : Binary} {x y : Node K} :
    b.passBack t (.binary id op x y) i w =
      if (w.getD i []).all (·.isNone) then pure w else (do
        let e ← op.slopes (b.algebra K) x y (.binary id op x y)
        let w' ← b.passRow w (t.position x) e.1 (w.getD i [])
        b.passRow w' (t.position y) e.2 (w.getD i [])) := by
  simp only [passRow, bind_assoc]
  rfl

end Builder

/-! ## Runs -/

namespace Builder

variable {t : Tape K} {seeds : List (List (SparseMatrix K))}

/-- The derivatives of the outputs, once the seeds are accepted. -/
def pushForward (b : Builder) (t : Tape K) (seeds : List (List (SparseMatrix K))) :
    Build (List (List (SparseMatrix K))) := do
  let zero ← Node.newConst Scalar.zero
  let w ← b.forwardSweep t zero seeds
  return Tape.sensitivities t.outputs seeds.length fun d n =>
    (w.getD (t.position n) []).getD d zero

theorem forward_run {b : Builder} (hc : t.checkSeeds .input seeds = .ok ()) (next : Nat) :
    (b.forward t seeds).run next =
      (.ok (b.pushForward t seeds next).1, (b.pushForward t seeds next).2) := by
  rw [forward, hc]
  rfl

theorem map_nnz_pushForward (b : Builder) (t : Tape K) (seeds : List (List (SparseMatrix K)))
    (next : Nat) :
    (b.pushForward t seeds next).1.map (·.map (·.nnz)) =
      List.replicate seeds.length (t.outputs.map (·.nnz)) :=
  Tape.map_nnz_sensitivities _ _ _

/-- The derivatives by the inputs, once the seeds are accepted. -/
def pullBack (b : Builder) (t : Tape K) (seeds : List (List (SparseMatrix K))) :
    Build (List (List (SparseMatrix K))) := do
  let zero ← Node.newConst Scalar.zero
  let w ← b.backwardSweep t zero seeds
  return Tape.sensitivities t.inputs seeds.length fun d n =>
    ((w.getD (t.position n) []).getD d none).getD zero

theorem backward_run {b : Builder} (hc : t.checkSeeds .output seeds = .ok ()) (next : Nat) :
    (b.backward t seeds).run next =
      (.ok (b.pullBack t seeds next).1, (b.pullBack t seeds next).2) := by
  rw [backward, hc]
  rfl

theorem map_nnz_pullBack (b : Builder) (t : Tape K) (seeds : List (List (SparseMatrix K)))
    (next : Nat) :
    (b.pullBack t seeds next).1.map (·.map (·.nnz)) =
      List.replicate seeds.length (t.inputs.map (·.nnz)) :=
  Tape.map_nnz_sensitivities _ _ _

/-- The derivatives by one side of a tape: with seeds for the inputs they are taken forward, with
seeds for the outputs backward. -/
def differentiate (b : Builder) (t : Tape K) (side : Side) (seeds : List (List (SparseMatrix K))) :
    Building (List (List (SparseMatrix K))) :=
  match side with
  | .input => b.forward t seeds
  | .output => b.backward t seeds

/-- The same, once the seeds are accepted. -/
def sensitivitiesOf (b : Builder) (t : Tape K) (side : Side)
    (seeds : List (List (SparseMatrix K))) : Build (List (List (SparseMatrix K))) :=
  match side with
  | .input => b.pushForward t seeds
  | .output => b.pullBack t seeds

/-- Accepted seeds always lead to derivatives. -/
theorem differentiate_run {b : Builder} {side : Side} (hc : t.checkSeeds side seeds = .ok ())
    (next : Nat) : (b.differentiate t side seeds).run next =
      (.ok (b.sensitivitiesOf t side seeds next).1, (b.sensitivitiesOf t side seeds next).2) := by
  cases side with
  | input => exact forward_run hc next
  | output => exact backward_run hc next

end Builder

end Tangent
