import Mathlib
import Tangent.Proofs.Adjoint
import Tangent.Proofs.Always
import Tangent.Proofs.Entries
import Tangent.Proofs.Noninterference

/-!
# Jacobians do not depend on the direction

A Jacobian is made of the forward derivatives for one unit seed per input nonzero, or of the
backward derivatives for one unit seed per output nonzero. The forward derivatives have the values
of tangents, and paired with a unit seed so do the backward ones (`Builder.ensures_columns`,
`Builder.ensures_rows`). Only the cells of the pattern are read; elsewhere the output does not reach
the input, and the tangent is zero (`Node.tangent_eq_zero`).
-/

set_option linter.unusedSectionVars false

namespace Tangent

variable {R : Type} [CommRing R] [Scalar R]

/-! ## Unit seeds -/

/-- The tangent one for a node and zero for all others. -/
def unitSeed (x : Node R) (id : Nat) : R :=
  if id = x.id then 1 else 0

/-- A row of zeros with a one. -/
def unitRow (R : Type) [CommRing R] (count k : Nat) : List R :=
  (List.replicate count 0).set k 1

theorem getElem?_unitRow {count k i : Nat} (hi : i < count) :
    (unitRow R count k)[i]? = some (if k = i then 1 else 0) := by
  rw [unitRow, List.getElem?_set, List.length_replicate, List.getElem?_replicate]
  split_ifs <;> simp_all

theorem sum_zipWith_unitRow {vs : List R} {k : Nat} {v : R} (hv : vs[k]? = some v) :
    (List.zipWith (· * ·) vs (unitRow R vs.length k)).sum = v := by
  have hzero : ∀ us : List R, (List.zipWith (· * ·) us (List.replicate us.length 0)).sum = 0 := by
    intro us
    induction us with
    | nil => rfl
    | cons u us ih => simp [List.replicate_succ, ih]
  unfold unitRow
  induction vs generalizing k with
  | nil => simp at hv
  | cons u vs ih =>
    cases k with
    | zero =>
      obtain rfl : u = v := by simpa using hv
      simp [List.replicate_succ, hzero]
    | succ k =>
      have hk := ih (k := k) (by simpa using hv)
      simp [List.replicate_succ, hk]

/-- Without a way to a symbol with a tangent, the tangent is zero. -/
theorem Node.tangent_eq_zero {env seed : Nat → R} {n : Node R}
    (h : ∀ s, n.Reaches s → s.isSymbol → seed s.id = 0) : n.tangent env seed = 0 := by
  induction n with
  | const id v => rfl
  | symbol id name => exact h _ (.refl _) rfl
  | unary id u x ih =>
    have hx := ih fun s hs => h s (.head (by simp [Node.operands]) hs)
    rw [tangent, hx, mul_zero]
  | binary id op x y ihx ihy =>
    have hx := ihx fun s hs => h s (.head (by simp [Node.operands]) hs)
    have hy := ihy fun s hs => h s (.head (by simp [Node.operands]) hs)
    simp only [tangent, hx, hy, mul_zero, add_zero]

theorem Scalar.Exact.one_eq [Scalar.Exact R] : (Scalar.literal .one : R) = 1 := by
  have hone := Scalar.Lawful.lawful.mul_one (1 : R)
  change Scalar.binary .mul 1 (Scalar.literal .one) = 1 at hone
  rwa [Scalar.Exact.mul_eq, one_mul] at hone

namespace Tape

variable {t : Tape R} {openEnded : Bool} {p : Heap R} {env : Nat → R}

/-- Unit seeds give the unit tangents. -/
theorem Layout.direction_eq_unitSeed (h : t.Layout openEnded) {seed : List (SparseMatrix R)}
    {c : Nat} {x : Node R} (hx : (nonzerosOf t.inputs)[c]? = some x)
    (hseed : (nonzerosOf seed).map (·.eval env) = unitRow R t.width c) :
    t.direction env seed = unitSeed x := by
  funext id
  have hlen : (nonzerosOf seed).length = t.width := by
    simpa [unitRow] using congrArg List.length hseed
  rw [direction, unitSeed]
  by_cases hid : ∃ y ∈ nonzerosOf t.inputs, y.id = id
  · obtain ⟨y, hy, rfl⟩ := hid
    obtain ⟨i, hi⟩ := List.getElem?_of_mem hy
    have hlt : i < t.width := width_eq t ▸ (List.getElem?_eq_some_iff.1 hi).1
    obtain ⟨s, hs⟩ : ∃ s, (nonzerosOf seed)[i]? = some s :=
      ⟨_, List.getElem?_eq_getElem (hlen ▸ hlt)⟩
    have hvalue := congrArg (·[i]?) hseed
    simp only [List.getElem?_map, hs, Option.map_some, getElem?_unitRow hlt,
      Option.some.injEq] at hvalue
    rw [find?_zip_of_nodup h.distinct hi hs, Option.elim_some, hvalue]
    have hsame : c = i ↔ y.id = x.id := by
      have hxid : ((nonzerosOf t.inputs).map Node.id)[c]? = some x.id := by simp [hx]
      have hyid : ((nonzerosOf t.inputs).map Node.id)[i]? = some y.id := by simp [hi]
      have hc := (List.getElem?_eq_some_iff.1 hxid).1
      rw [← List.getElem?_inj hc h.distinct, hxid, hyid, Option.some_inj, eq_comm]
    simp only [hsame]
  · have hnone : ((nonzerosOf t.inputs).zip (nonzerosOf seed)).find? (·.1.id == id) = none := by
      refine List.find?_eq_none.2 fun s hs he => hid ⟨s.1, (List.of_mem_zip hs).1, ?_⟩
      simpa using he
    have hne : id ≠ x.id := fun he => hid ⟨x, List.mem_of_getElem? hx, he.symm⟩
    rw [hnone, if_neg hne, Option.elim_none]

end Tape

/-! ## Filling a Jacobian -/

namespace Builder

variable {t : Tape R} {openEnded : Bool} {p : Heap R} {input output : SparseMatrix R}
  {pattern : Pattern}

/-- One direction for each nonzero. -/
def unitSeeds (R : Type) [Scalar R] (sp : SharedPattern) (count : Nat) :
    Build (List (List (SparseMatrix R))) :=
  (List.range count).mapM fun k => return [← unit sp k]

/-- The node of a direction. -/
def sensitivityAt (sens : List (List (SparseMatrix R))) (zero : Node R) (d k : Int64) : Node R :=
  (Tape.nonzerosOf (sens.getD d.toNatClampNeg [])).getD k.toNatClampNeg zero

/-- The nodes that are made once the tape and the pattern are there. -/
def fillJacobian (b : Builder) (t : Tape R) (pattern : Pattern) (output input : SparseMatrix R) :
    Build (SparseMatrix R) := do
  let sp ← SharedPattern.share pattern
  let zero ← Node.newConst Scalar.zero
  if input.nnz ≤ output.nnz then
    let sens ← unitSeeds R input.sp input.nnz >>= b.pushForward t
    return {
      sp
      nonzeros := pattern.entries.map fun e => sensitivityAt sens zero e.cell.col e.cell.row }
  else
    let sens ← unitSeeds R output.sp output.nnz >>= b.pullBack t
    return {
      sp
      nonzeros := pattern.entries.map fun e => sensitivityAt sens zero e.cell.row e.cell.col }

/-- The seeds are matrices of constants with a one at each nonzero in turn. -/
structure AreUnits (p : Heap R) (env : Nat → R) (sp : SharedPattern) (count : Nat)
    (seeds : List (List (SparseMatrix R))) : Prop where
  length : seeds.length = count
  unit : ∀ {k : Nat} {seed : List (SparseMatrix R)}, seeds[k]? = some seed → ∃ m, seed = [m] ∧
    m.sp = sp ∧ m.nonzeros.map (·.eval env) = unitRow R sp.pattern.nnz k ∧ ∀ n ∈ m.nonzeros, n ∈ p

theorem ensures_unit [Scalar.Exact R] (env : Nat → R) (sp : SharedPattern) (k : Nat) :
    p.Ensures (unit sp k) fun q m => (∀ n ∈ m.nonzeros, n ∈ q) ∧
      (m.sp, m.nonzeros.map (·.eval env)) = (sp, unitRow R sp.pattern.nnz k) := by
  unfold unit SparseMatrix.zeros
  rw [bind_assoc]
  refine (Heap.ensures_zero env).bind fun q zero _ hzero => ?_
  rw [pure_bind]
  refine (Heap.ensures_newConst (Scalar.literal .one)).bind fun r one hqr hone => .pure ⟨?_, ?_⟩
  · intro n hn
    rcases List.mem_or_eq_of_mem_set hn with hn | rfl
    · rw [List.eq_of_mem_replicate hn]
      exact Heap.mem_of_le hqr hzero.1
    · exact hone.1
  · have hvalue : one.eval env = 1 :=
      (Heap.eval_of_value? env hone.2).trans Scalar.Exact.one_eq
    simp only [List.map_set, List.map_replicate, hzero.2, hvalue, unitRow]

theorem ensures_unitSeeds [Scalar.Exact R] (env : Nat → R) (sp : SharedPattern) (count : Nat) :
    p.Ensures (unitSeeds R sp count) fun q seeds => AreUnits q env sp count seeds := by
  have hone : ∀ (q : Heap R) (k : Nat), p ≤ q → k ∈ List.range count →
      q.Ensures (return [← unit sp k]) fun r seed => (∀ m ∈ seed, ∀ n ∈ m.nonzeros, n ∈ r) ∧
        seed.map (fun m => (m.sp, m.nonzeros.map (·.eval env))) =
          [(sp, unitRow R sp.pattern.nnz k)] := fun q k _ _ =>
    (ensures_unit env sp k).bind fun r m _ hm =>
      .pure ⟨List.forall_mem_singleton.2 hm.1, congrArg (fun x => [x]) hm.2⟩
  refine (Heap.Ensures.mapM (fun q r seed hqr hseed m hm n hn =>
    Heap.mem_of_le hqr (hseed m hm n hn)) _ hone).imp fun q seeds _ hseeds => ?_
  obtain ⟨hmem, hmap⟩ := hseeds
  have hlength : seeds.length = count := by simpa using congrArg List.length hmap
  refine ⟨hlength, fun {k seed} hk => ?_⟩
  have hlt : k < count := hlength ▸ (List.getElem?_eq_some_iff.1 hk).1
  have hseed := congrArg (·[k]?) hmap
  simp only [List.getElem?_map, hk, List.getElem?_range hlt, Option.map_some,
    Option.some.injEq] at hseed
  obtain ⟨m, rfl, hm⟩ := List.map_eq_singleton_iff.1 hseed
  obtain ⟨hsp, hvalues⟩ := Prod.mk.inj hm
  exact ⟨m, rfl, hsp, hvalues, hmem _ (List.mem_of_getElem? hk) m List.mem_cons_self⟩

variable [Scalar.Exact R]

theorem checkSeeds_unitSeeds {side : Side} {m : SparseMatrix R} (hside : t.sideOf side = [m])
    (count next : Nat) : t.checkSeeds side (unitSeeds R m.sp count next).1 = .ok () := by
  obtain ⟨q, -, -, hunits⟩ := ensures_unitSeeds (p := .empty next) (0 : Nat → R) m.sp count
  refine Tape.checkSeeds_of_patterns fun seed hseed => ?_
  obtain ⟨k, hk⟩ := List.getElem?_of_mem hseed
  obtain ⟨m', rfl, hsp, -⟩ := hunits.unit hk
  simp [hside, SparseMatrix.pattern, hsp]

theorem jacobian_run [Numeral R] {b : Builder}
    (ht : Tape.freezeOpen "jacobian" [input] [output] = .ok t)
    (hpattern : t.jacobianPattern 0 0 = .ok pattern) (next : Nat) :
    (b.jacobian output input).run next = (.ok (b.fillJacobian t pattern output input next).1,
      (b.fillJacobian t pattern output input next).2) := by
  obtain ⟨-, hin, hout, -⟩ := Tape.layOut_ok ht
  have hinputs : t.sideOf .input = [input] := hin
  have houtputs : t.sideOf .output = [output] := hout
  have hseeds : ∀ (sp : SharedPattern) (count next : Nat),
      ((List.range count).mapM fun k => (do return [← unit (K := R) sp k] : Building _)).run next =
        (.ok (unitSeeds R sp count next).1, (unitSeeds R sp count next).2) := fun sp count =>
    Building.run_mapM (g := fun k => return [← unit sp k]) (fun k next => rfl) _
  unfold jacobian fillJacobian
  rw [ht]
  refine (Building.run_bind_ok rfl).trans ?_
  rw [hpattern]
  refine (Building.run_bind_ok rfl).trans ?_
  refine (Building.run_bind_ok rfl).trans ?_
  refine (Building.run_bind_ok rfl).trans ?_
  by_cases hle : input.nnz ≤ output.nnz
  · simp only [if_pos hle]
    refine (Building.run_bind_ok (hseeds _ _ _)).trans ?_
    refine (Building.run_bind_ok (forward_run (checkSeeds_unitSeeds hinputs _ _) _)).trans ?_
    rfl
  · simp only [if_neg hle]
    refine (Building.run_bind_ok (hseeds _ _ _)).trans ?_
    refine (Building.run_bind_ok (backward_run (checkSeeds_unitSeeds houtputs _ _) _)).trans ?_
    rfl

/-- What a unit seed has in common with the matrix that it is a direction for. -/
theorem AreUnits.of_filled {env : Nat → R} {m : SparseMatrix R} (hm : m.Filled)
    {seeds : List (List (SparseMatrix R))} (h : AreUnits p env m.sp m.nnz seeds) :
    (∀ seed ∈ seeds, (∀ n ∈ Tape.nonzerosOf seed, n ∈ p) ∧
      seed.map (·.nnz) = [m].map (·.nnz)) ∧
    ∀ k < m.nnz, ∃ seed, seeds[k]? = some seed ∧
      (Tape.nonzerosOf seed).map (·.eval env) = unitRow R m.nnz k := by
  have hnnz : m.sp.pattern.nnz = m.nnz := hm.symm
  constructor
  · intro seed hseed
    obtain ⟨k, hk⟩ := List.getElem?_of_mem hseed
    obtain ⟨u, rfl, -, hvalues, hmem⟩ := h.unit hk
    have hlength : u.nonzeros.length = m.nnz := by
      simpa [unitRow, hnnz] using congrArg List.length hvalues
    exact ⟨by simpa [Tape.nonzerosOf] using hmem, congrArg (fun n => [n]) hlength⟩
  · intro k hk
    obtain ⟨seed, hget⟩ : ∃ seed, seeds[k]? = some seed :=
      ⟨_, List.getElem?_eq_getElem (h.length ▸ hk)⟩
    obtain ⟨u, hu, -, hvalues, -⟩ := h.unit hget
    refine ⟨_, hget, ?_⟩
    rw [hu, Tape.nonzerosOf, List.flatMap_singleton, hvalues, hnnz]

/-- The forward derivatives for the unit seeds of the input are the columns of the Jacobian. -/
theorem ensures_columns (env : Nat → R) (b : Builder) (h : t.Layout openEnded)
    (hp : ∀ n ∈ t.nodes, n ∈ p) (hout : ∀ n ∈ Tape.nonzerosOf t.outputs, n ∈ p)
    (hinput : t.inputs = [input]) (hfilled : input.Filled) :
    p.Ensures (unitSeeds R input.sp input.nnz >>= b.pushForward t) fun _ sens =>
      ∀ {r c : Nat} {n x : Node R}, (Tape.nonzerosOf t.outputs)[r]? = some n →
        (Tape.nonzerosOf t.inputs)[c]? = some x →
        ∃ m, (Tape.nonzerosOf (sens.getD c []))[r]? = some m ∧
          m.eval env = n.tangent env (unitSeed x) := by
  refine (ensures_unitSeeds env input.sp input.nnz).bind fun q seeds hpq hunits => ?_
  obtain ⟨hseeds, hunit⟩ := hunits.of_filled hfilled
  refine (ensures_pushForward env b h (fun n hn => Heap.mem_of_le hpq (hp n hn))
    (fun n hn => Heap.mem_of_le hpq (hout n hn)) (hinput ▸ hseeds)).imp
    fun _ sens _ hsens {r c n x} hn hx => ?_
  have hwidth : t.width = input.nnz := by
    rw [Tape.width_eq_sum, hinput]
    simp
  have hc : c < input.nnz := hwidth ▸ Tape.width_eq t ▸ (List.getElem?_eq_some_iff.1 hx).1
  obtain ⟨seed, hseed, hvalues⟩ := hunit c hc
  have hcolumn := congrArg (·[c]?) hsens
  simp only [List.getElem?_map, hseed, Option.map_some, Option.map_eq_some_iff] at hcolumn
  obtain ⟨sen, hsen, hcolumn⟩ := hcolumn
  have htangents : (Tape.nonzerosOf sen).map (·.eval env) =
      (Tape.nonzerosOf t.outputs).map (t.tangentOf env · seed) := by
    rw [Tape.map_nonzerosOf, Tape.map_nonzerosOf, hcolumn]
  have hentry := congrArg (·[r]?) htangents
  simp only [List.getElem?_map, hn, Option.map_some, Option.map_eq_some_iff] at hentry
  obtain ⟨m, hm, hvalue⟩ := hentry
  refine ⟨m, by rw [List.getD_eq_getElem?_getD, hsen]; exact hm, ?_⟩
  rw [hvalue, Tape.tangentOf, h.direction_eq_unitSeed hx (hwidth ▸ hvalues)]

/-- The backward derivatives for the unit seeds of the output are the rows of the Jacobian. -/
theorem ensures_rows (env : Nat → R) (b : Builder) (h : t.Layout openEnded)
    (hp : ∀ n ∈ t.nodes, n ∈ p) (hout : ∀ n ∈ Tape.nonzerosOf t.outputs, n ∈ p)
    (houtput : t.outputs = [output]) (hfilled : output.Filled) :
    p.Ensures (unitSeeds R output.sp output.nnz >>= b.pullBack t) fun _ sens =>
      ∀ {r c : Nat} {n x : Node R}, (Tape.nonzerosOf t.outputs)[r]? = some n →
        (Tape.nonzerosOf t.inputs)[c]? = some x →
        ∃ m, (Tape.nonzerosOf (sens.getD r []))[c]? = some m ∧
          m.eval env = n.tangent env (unitSeed x) := by
  refine (ensures_unitSeeds env output.sp output.nnz).bind fun q seeds hpq hunits => ?_
  obtain ⟨hseeds, hunit⟩ := hunits.of_filled hfilled
  refine (ensures_pullBack env b h (fun n hn => Heap.mem_of_le hpq (hp n hn))
    (fun n hn => Heap.mem_of_le hpq (hout n hn)) (houtput ▸ hseeds)).run.imp
    fun _ sens _ hsens {r c n x} hn hx => ?_
  obtain ⟨hpairing, rfl⟩ := hsens
  have hcount : (Tape.nonzerosOf t.outputs).length = output.nnz := by
    rw [houtput, Tape.nonzerosOf, List.flatMap_singleton, SparseMatrix.nnz]
  have hr : r < output.nnz := hcount ▸ (List.getElem?_eq_some_iff.1 hn).1
  obtain ⟨seed, hseed, hvalues⟩ := hunit r hr
  have hshape := map_nnz_pullBack b t seeds q.next
  obtain ⟨sen, hsen⟩ : ∃ sen, (b.pullBack t seeds q.next).1[r]? = some sen := by
    refine ⟨_, List.getElem?_eq_getElem ?_⟩
    have hlength := congrArg List.length hshape
    rw [List.length_map, List.length_replicate, hunits.length] at hlength
    exact hlength ▸ hr
  have hlength : (Tape.nonzerosOf sen).length = t.width := by
    rw [Tape.length_nonzerosOf, Tape.width_eq_sum]
    exact congrArg List.sum
      (List.eq_of_mem_replicate (hshape ▸ List.mem_map_of_mem (List.mem_of_getElem? hsen)))
  obtain ⟨m, hm⟩ : ∃ m, (Tape.nonzerosOf sen)[c]? = some m := by
    refine ⟨_, List.getElem?_eq_getElem ?_⟩
    rw [hlength, Tape.width_eq]
    exact (List.getElem?_eq_some_iff.1 hx).1
  refine ⟨m, by rw [List.getD_eq_getElem?_getD, hsen]; exact hm, ?_⟩
  -- In the direction of the inputs that is one at `x` alone, both sums have one term.
  let direction : List (SparseMatrix R) :=
    [{ sp := output.sp, nonzeros := (unitRow R t.width c).map (Node.const 0) }]
  have hdirection : (Tape.nonzerosOf direction).map (·.eval env) = unitRow R t.width c := by
    rw [Tape.nonzerosOf, List.flatMap_singleton, List.map_map]
    exact List.map_id _
  have hpair := hpairing r seed sen hseed hsen direction (by
    rw [← List.length_map (f := (·.eval env)), hdirection, unitRow, List.length_set,
      List.length_replicate])
  calc m.eval env
      = (List.zipWith (· * ·) ((Tape.nonzerosOf sen).map (·.eval env))
          ((Tape.nonzerosOf direction).map (·.eval env))).sum := by
        rw [hdirection, ← hlength, ← List.length_map (f := (·.eval env)), sum_zipWith_unitRow]
        rw [List.getElem?_map, hm]
        rfl
    _ = (List.zipWith (· * ·) ((Tape.nonzerosOf seed).map (·.eval env))
          ((Tape.nonzerosOf t.outputs).map (t.tangentOf env · direction))).sum := hpair
    _ = t.tangentOf env n direction := by
        rw [hvalues, List.zipWith_comm_of_comm mul_comm, ← hcount,
          ← List.length_map (f := (t.tangentOf env · direction)), sum_zipWith_unitRow]
        rw [List.getElem?_map, hn]
        rfl
    _ = n.tangent env (unitSeed x) := by
        rw [Tape.tangentOf, h.direction_eq_unitSeed hx hdirection]

theorem ensures_share (pattern : Pattern) :
    p.Ensures (SharedPattern.share pattern) fun _ sp => sp.pattern = pattern :=
  ⟨p.skip, ⟨Nat.le_succ _, fun _ hn => hn⟩, rfl, rfl⟩

/-- In both directions, each entry is a node with the value of its tangent. -/
theorem ensures_fillJacobian (env : Nat → R) (b : Builder) (pattern : Pattern)
    (h : t.Layout openEnded)
    (hp : ∀ n ∈ t.nodes, n ∈ p) (hout : ∀ n ∈ Tape.nonzerosOf t.outputs, n ∈ p)
    (hinputs : t.inputs = [input]) (houtputs : t.outputs = [output]) (hinput : input.Filled)
    (houtput : output.Filled) :
    p.Ensures (b.fillJacobian t pattern output input) fun _ jac =>
      jac.pattern = pattern ∧ ∃ f : Cell → Node R,
        jac.nonzeros = pattern.entries.map (fun e => f e.cell) ∧
        ∀ {r c : Nat} {n x : Node R}, r < 2 ^ 63 → c < 2 ^ 63 →
          (Tape.nonzerosOf t.outputs)[r]? = some n → (Tape.nonzerosOf t.inputs)[c]? = some x →
          (f { row := Int64.ofNat r, col := Int64.ofNat c }).eval env =
            n.tangent env (unitSeed x) := by
  refine (ensures_share pattern).bind fun q sp hpq hsp => ?_
  refine (Heap.ensures_newConst Scalar.zero).bind fun q' zero hqq' _ => ?_
  have hle := le_trans hpq hqq'
  have hp' : ∀ n ∈ t.nodes, n ∈ q' := fun n hn => Heap.mem_of_le hle (hp n hn)
  have hout' : ∀ n ∈ Tape.nonzerosOf t.outputs, n ∈ q' := fun n hn =>
    Heap.mem_of_le hle (hout n hn)
  split_ifs
  · refine (ensures_columns env b h hp' hout' hinputs hinput).bind fun _ sens _ hsens =>
      .pure ⟨hsp, fun cell => sensitivityAt sens zero cell.col cell.row, rfl, ?_⟩
    intro r c n x hr hc hn hx
    obtain ⟨m, hm, hvalue⟩ := hsens hn hx
    simp only [sensitivityAt]
    rw [Int64.toNatClampNeg_ofNat_of_lt hr, Int64.toNatClampNeg_ofNat_of_lt hc,
      List.getD_eq_getElem?_getD, hm]
    exact hvalue
  · refine (ensures_rows env b h hp' hout' houtputs houtput).bind fun _ sens _ hsens =>
      .pure ⟨hsp, fun cell => sensitivityAt sens zero cell.row cell.col, rfl, ?_⟩
    intro r c n x hr hc hn hx
    obtain ⟨m, hm, hvalue⟩ := hsens hn hx
    simp only [sensitivityAt]
    rw [Int64.toNatClampNeg_ofNat_of_lt hr, Int64.toNatClampNeg_ofNat_of_lt hc,
      List.getD_eq_getElem?_getD, hm]
    exact hvalue

end Builder

/-! ## The Jacobian -/

/-- A matrix and a matrix of distinct symbols. Their nodes were made with numbers from one supply
that now hands out `next`, and the derivatives can be stored. -/
structure SparseMatrix.DerivableBy (output input : SparseMatrix R) (next : Nat) : Prop where
  built : ∃ nodes, Built next nodes ∧ (∀ n ∈ output.nonzeros, n ∈ nodes) ∧
    ∀ n ∈ input.nonzeros, n ∈ nodes
  symbols : ∀ n ∈ input.nonzeros, n.isSymbol
  distinct : input.nonzeros.Nodup
  output_filled : output.Filled
  input_filled : input.Filled
  rows_fit : output.nnz < Pattern.capacity.toNatClampNeg
  columns_fit : input.nnz < Pattern.capacity.toNatClampNeg
  places_fit : output.nnz * input.nnz < 2 ^ 63

/-- The pattern has a row for each output nonzero and a column for each input nonzero. -/
theorem Tape.Layout.of_jacobianPattern {t : Tape R} {openEnded : Bool} (h : t.Layout openEnded)
    {output input : SparseMatrix R} {next : Nat} (hd : output.DerivableBy input next)
    (hinputs : t.inputs = [input]) (houtputs : t.outputs = [output]) :
    ∃ pattern, t.jacobianPattern 0 0 = .ok pattern ∧ pattern.nrow = Int64.ofNat output.nnz ∧
      pattern.ncol = Int64.ofNat input.nnz ∧ pattern.WellFormed := by
  have hone : (0 : Int64) ≤ 0 ∧ (0 : Int64) < Int64.ofNat 1 := by decide
  have hin : (0 : Int64) ≤ 0 ∧ (0 : Int64) < Int64.ofNat t.inputs.length := hinputs ▸ hone
  have hout : (0 : Int64) ≤ 0 ∧ (0 : Int64) < Int64.ofNat t.outputs.length := houtputs ▸ hone
  obtain ⟨pattern, hpattern⟩ := h.exists_jacobianPattern hin hout (by
    rw [hinputs, houtputs]
    simpa using ⟨hd.columns_fit, hd.rows_fit⟩)
  have hbound := Int64.toNatClampNeg_lt Pattern.capacity
  have hrows := hd.rows_fit
  have hcolumns := hd.columns_fit
  have hplaces := hd.places_fit
  obtain ⟨-, -, hcells⟩ := jacobianPattern_ok_iff.1 hpattern
  have hnrow : ((t.outputs.map (·.nnz)).getD (0 : Int64).toNatClampNeg 0) = output.nnz := by
    rw [houtputs]
    rfl
  have hncol : ((t.inputs.map (·.nnz)).getD (0 : Int64).toNatClampNeg 0) = input.nnz := by
    rw [hinputs]
    rfl
  rw [hnrow, hncol] at hcells
  have hnnz : pattern.nnz < 2 ^ 63 := by
    refine (Pattern.nnz_ofCells_le hcells).trans_lt ?_
    rwa [Int64.toNatClampNeg_ofNat_of_lt (by omega), Int64.toNatClampNeg_ofNat_of_lt (by omega)]
  have hwf := Pattern.wellFormed_of_nnz_lt hcells (Int64.zero_le_ofNat_of_lt (by omega))
    (Int64.zero_le_ofNat_of_lt (by omega)) hnnz
  obtain ⟨-, -, rfl⟩ := Pattern.ofCells_ok_iff.1 hcells
  exact ⟨_, hpattern, rfl, rfl, hwf⟩

/-- A Jacobian is made of tangents, whichever direction is taken : there is one for every matrix and
every matrix of distinct symbols, with a row for each nonzero of the first and a column for each
nonzero of the second, and the entry at each place, which is zero where there is none, has the value
of the tangent of the output nonzero in the direction of the input nonzero. -/
theorem Builder.jacobian_eval_eq_tangent [Scalar.Exact R] [Numeral R]
    {output input : SparseMatrix R} {next : Nat} (hd : output.DerivableBy input next)
    (b : Builder) :
    ∃ jac next', (b.jacobian output input).run next = (.ok jac, next') ∧
      jac.pattern.nrow = Int64.ofNat output.nnz ∧ jac.pattern.ncol = Int64.ofNat input.nnz ∧
      jac.pattern.WellFormed ∧ jac.Filled ∧
      ∀ (env : Nat → R) (r c : Nat) (n x : Node R), output.nonzeros[r]? = some n →
        input.nonzeros[c]? = some x →
        ((jac.get? (Int64.ofNat r) (Int64.ofNat c)).elim 0 (·.eval env)) =
          n.tangent env (unitSeed x) := by
  obtain ⟨nodes, hbuilt, houtput, hinput⟩ := hd.built
  obtain ⟨p, rfl, hnodes⟩ := hbuilt.exists_heap
  have hin : ∀ n ∈ Tape.nonzerosOf [input], n ∈ p := by
    simpa [Tape.nonzerosOf] using fun n hn => hnodes n (hinput n hn)
  have hout : ∀ n ∈ Tape.nonzerosOf [output], n ∈ p := by
    simpa [Tape.nonzerosOf] using fun n hn => hnodes n (houtput n hn)
  have hsymbols : ∀ n ∈ Tape.nonzerosOf [input], n.isSymbol := by
    simpa [Tape.nonzerosOf] using hd.symbols
  obtain ⟨t, ht⟩ := Tape.freezeOpen_ok "jacobian" [output] hsymbols
    ((Graph.nodup_map_id (G := p.graph) hin).2 (by simpa [Tape.nonzerosOf] using hd.distinct))
  have h := Tape.layout_of_layOut ht
  obtain ⟨-, hinputs, houtputs, -⟩ := Tape.layOut_ok ht
  have hp := h.mem_heap (hinputs ▸ hin) (houtputs ▸ hout)
  obtain ⟨pattern, hpattern, hnrow, hncol, hwf⟩ := h.of_jacobianPattern hd hinputs houtputs
  have hjac := fun env => (ensures_fillJacobian env b pattern h hp (houtputs ▸ hout) hinputs
    houtputs hd.input_filled hd.output_filled).result
  refine ⟨_, _, jacobian_run ht hpattern p.next, ?_⟩
  generalize (b.fillJacobian t pattern output input p.next).1 = jac at hjac ⊢
  obtain ⟨rfl, f, hnonzeros, -⟩ := hjac 0
  refine ⟨hnrow, hncol, hwf, ?_, fun env r c n x hn hx => ?_⟩
  · rw [SparseMatrix.Filled, SparseMatrix.nnz, hnonzeros, List.length_map, hwf.length_entries]
  · obtain ⟨-, f, hnonzeros, hvalue⟩ := hjac env
    have hbound := Int64.toNatClampNeg_lt Pattern.capacity
    have hr : r < output.nnz := (List.getElem?_eq_some_iff.1 hn).1
    have hc : c < input.nnz := (List.getElem?_eq_some_iff.1 hx).1
    have hrows := hd.rows_fit
    have hcolumns := hd.columns_fit
    rw [SparseMatrix.get?_entries hwf hnonzeros]
    split_ifs with hcell
    · refine hvalue (by omega) (by omega) ?_ ?_
      · simpa [houtputs, Tape.nonzerosOf] using hn
      · simpa [hinputs, Tape.nonzerosOf] using hx
    · refine (Node.tangent_eq_zero fun s hs _ => if_neg fun hid => hcell ?_).symm
      have hnp : n ∈ p := hnodes n (houtput n (List.mem_of_getElem? hn))
      have hxp : x ∈ p := hnodes x (hinput x (List.mem_of_getElem? hx))
      obtain rfl : s = x := p.eq_of_id (p.graph.mem_of_reaches hnp hs) hxp hid
      refine h.hasCell_of_reaches (G := p.graph) hp hpattern hwf.nnz_lt ?_ hnp ?_ hs
      · exact Tape.nonzero?_eq_some.2 ⟨output, by rw [houtputs]; rfl, hn⟩
      · exact Tape.nonzero?_eq_some.2 ⟨input, by rw [hinputs]; rfl, hx⟩

/-! ## The derivatives of a wave -/

namespace Wave

/-- Both inputs, in one column. -/
def inputs : SparseMatrix ℝ where
  sp := ⟨8, 2, 1, [0, 2], [0, 1]⟩
  nonzeros := [x, y]

/-- The height, its phase and an input, in one column. -/
def outputs : SparseMatrix ℝ where
  sp := ⟨9, 3, 1, [0, 3], [0, 1, 2]⟩
  nonzeros := [height, phase, y]

theorem derivableBy : outputs.DerivableBy inputs 8 where
  built := ⟨nodes, built, by simp [outputs, nodes], by simp [inputs, nodes]⟩
  symbols := by simp [inputs, x, y, Node.isSymbol, Node.name?]
  distinct := by simp [inputs, x, y]
  output_filled := rfl
  input_filled := rfl
  rows_fit := by decide
  columns_fit := by decide
  places_fit := by decide

theorem derivableBy_scalar : (SparseMatrix.scalar height).DerivableBy inputs 8 where
  built := ⟨nodes, built, by simp [SparseMatrix.scalar, nodes], by simp [inputs, nodes]⟩
  symbols := derivableBy.symbols
  distinct := derivableBy.distinct
  output_filled := SparseMatrix.filled_scalar height
  input_filled := rfl
  rows_fit := by decide
  columns_fit := by decide
  places_fit := by decide

end Wave

/-- With three outputs the derivatives are taken forward, and with one output backward. -/
theorem Builder.jacobian_eval_eq_tangent_wave :
    Wave.outputs.DerivableBy Wave.inputs 8 ∧
      (SparseMatrix.scalar Wave.height).DerivableBy Wave.inputs 8 ∧
      ∃ jac jac' next next',
        ((⟨0⟩ : Builder).jacobian Wave.outputs Wave.inputs).run 8 = (.ok jac, next) ∧
        ((⟨0⟩ : Builder).jacobian (.scalar Wave.height) Wave.inputs).run 8 = (.ok jac', next') ∧
        ∀ env : Nat → ℝ,
          let phase := env 1 * env 2
          let slope := Real.sin phase * env 2 + phase * (Real.cos phase * env 2)
          (jac.get? 0 0).elim 0 (·.eval env) = slope ∧
            (jac'.get? 0 0).elim 0 (·.eval env) = slope ∧
            (jac.get? 2 0).elim 0 (·.eval env) = 0 := by
  refine ⟨Wave.derivableBy, Wave.derivableBy_scalar, ?_⟩
  obtain ⟨jac, next, hrun, -, -, -, -, hvalue⟩ := jacobian_eval_eq_tangent Wave.derivableBy ⟨0⟩
  obtain ⟨jac', next', hrun', -, -, -, -, hvalue'⟩ :=
    jacobian_eval_eq_tangent Wave.derivableBy_scalar ⟨0⟩
  refine ⟨jac, jac', next, next', hrun, hrun', fun env => ?_⟩
  have hslope : Wave.height.tangent env (unitSeed Wave.x) =
      Real.sin (env 1 * env 2) * (env 2 * 1 + env 1 * 0) +
        (env 1 * env 2) * (Real.cos (env 1 * env 2) * (env 2 * 1 + env 1 * 0)) := rfl
  rw [mul_one, mul_zero, add_zero] at hslope
  exact ⟨(hvalue env 0 0 _ _ rfl rfl).trans hslope, (hvalue' env 0 0 _ _ rfl rfl).trans hslope,
    hvalue env 2 0 _ _ rfl rfl⟩

end Tangent
