import Mathlib
import Tangent.Proofs.Mirror
import Tangent.Proofs.Noninterference
import Tangent.Proofs.Seeding

/-!
# Directions do not influence each other

Several directions share one sweep, the nodes of the derivatives and the node for zero. A sweep for
one of them alone makes fewer nodes, with other numbers; but what it makes has copies, at the place
of this direction, among what the common sweep makes. One step of the sweeps is compared first
(`Tape.Layout.mirror_tangents`, `Tape.Layout.mirror_passBack`), then the sweeps.

Backward, the common sweep visits a node as soon as it has an adjoint in any direction. If it has
none in the one direction, the sweep for this direction passes over the node, while the common
sweep adds nothing to the adjoints in this direction (`Builder.passRow_none`).
-/

namespace Tangent

variable {K : Type} [Scalar K]

/-! ## Forward -/

namespace Tape

variable {t : Tape K} {openEnded : Bool} {s s' : Mirror K} {b : Builder} {d k : Nat}

/-- The tangents of the first `k` nodes in one direction, beside those in all directions. -/
structure SweptBeside (s : Mirror K) (d k : Nat) (w w' : Array (List (Node K))) : Prop where
  size : w.size = k
  size' : w'.size = k
  row : ∀ i < k, Beside s.Shows (· ∈ s.image) d (w.getD i []) (w'.getD i [])

theorem beside_mono (hs : s ≤ s') {row row' : List (Node K)}
    (h : Beside s.Shows (· ∈ s.image) d row row') :
    Beside s'.Shows (· ∈ s'.image) d row row' :=
  h.imp (fun _ _ h => h.mono hs) fun _ h => Heap.mem_of_le hs.2.1 h

theorem SweptBeside.mono (hs : s ≤ s') {w w' : Array (List (Node K))}
    (h : SweptBeside s d k w w') : SweptBeside s' d k w w' :=
  ⟨h.size, h.size', fun i hi => beside_mono hs (h.row i hi)⟩

theorem SweptBeside.push {w w' : Array (List (Node K))} (h : SweptBeside s d k w w')
    {row row' : List (Node K)} (hrow : Beside s.Shows (· ∈ s.image) d row row') :
    SweptBeside s d (k + 1) (w.push row) (w'.push row') := by
  have hget : ∀ {v : Array (List (Node K))} {r : List (Node K)} {i : Nat}, v.size = k → i < k + 1 →
      (v.push r).getD i [] = if i = k then r else v.getD i [] := by
    intro v r i hv hi
    by_cases hik : i = k
    · simp [hik, ← hv]
    · simp [Array.getElem?_push, hv, hik]
  refine ⟨by rw [Array.size_push, h.size], by rw [Array.size_push, h.size'], fun i hi => ?_⟩
  rw [hget h.size hi, hget h.size' hi]
  split_ifs with hik
  · exact hrow
  · exact h.row i (by omega)

/-- One step of both sweeps makes the tangents of one more node. -/
theorem Layout.mirror_tangents (h : t.Layout openEnded) (hp : ∀ n ∈ t.nodes, s.Shows n n)
    {w w' : Array (List (Node K))} (hw : SweptBeside s d k w w') {n : Node K}
    (hn : t.nodes[k]? = some n) {zero zero' : Node K} (hzero : s.Shows zero zero') {count : Nat}
    (hd : d < count) :
    s.Ensures (b.tangents t 1 zero w n) (b.tangents t count zero' w' n) fun r =>
      Beside r.Shows (· ∈ r.image) d := by
  have hself := hp n (List.mem_of_getElem? hn)
  have hheap : ∀ n ∈ t.nodes, n ∈ s.heap := fun n hn => (hp n hn).1
  have hzeros : Beside s.Shows (· ∈ s.image) d [zero] (List.replicate count zero') :=
    ⟨⟨zero, zero', rfl, by simp [hd], hzero⟩, fun m hm =>
      List.eq_of_mem_replicate hm ▸ hzero.mem_image⟩
  have hmono : ∀ (r r' : Mirror K) (n m : Node K), r ≤ r' → r.Shows n m → r'.Shows n m :=
    fun _ _ _ _ hr hnm => hnm.mono hr
  have hmem : ∀ (q q' : Heap K) (n : Node K), q ≤ q' → n ∈ q → n ∈ q' := fun _ _ _ hq hn =>
    Heap.mem_of_le hq hn
  cases n with
  | const id v => exact .pure hzeros
  | symbol id name => exact .pure hzeros
  | unary id u x =>
    have hx : x ∈ (Node.unary id u x).operands := by simp [Node.operands]
    have hrow := hw.row _ (h.getElem?_operand hheap hn hx).1
    refine (Mirror.ensures_slope b u (hself.operand hx) hself).bind fun r dx dx' hr hdx => ?_
    refine Mirror.Ensures.mapM hmono hmem hrow (fun r' a c hr' hac _ => ?_) fun q c hq hc => ?_
    · exact (Mirror.ensures_binary b .mul (hdx.mono hr') (hac.mono (le_trans hr hr'))).imp
        fun _ _ _ _ hn => ⟨hn, hn.mem_image⟩
    · exact Heap.ensures_binary_mem b .mul (Heap.mem_of_le hq hdx.mem_image)
        (Heap.mem_of_le (le_trans hr.2.1 hq) hc)
  | binary id op x y =>
    have hx : x ∈ (Node.binary id op x y).operands := by simp [Node.operands]
    have hy : y ∈ (Node.binary id op x y).operands := by simp [Node.operands]
    have hrows := (hw.row _ (h.getElem?_operand hheap hn hx).1).zip
      (hw.row _ (h.getElem?_operand hheap hn hy).1)
    refine (Mirror.ensures_slopes b op (hself.operand hx) (hself.operand hy) hself).bind
      fun r e e' hr he => ?_
    refine Mirror.Ensures.mapM hmono hmem hrows (fun r' a c hr' hac _ => ?_) fun q c hq hc => ?_
    · have hx' := hac.1.mono (le_trans hr hr')
      have hy' := hac.2.mono (le_trans hr hr')
      refine (Mirror.ensures_binary b .mul (he.1.mono hr') hx').bind fun r₁ m m' hr₁ hm => ?_
      refine (Mirror.ensures_binary b .mul ((he.2.mono hr').mono hr₁) (hy'.mono hr₁)).bind
        fun r₂ l l' hr₂ hl => ?_
      exact (Mirror.ensures_binary b .add (hm.mono hr₂) hl).imp fun _ _ _ _ hn =>
        ⟨hn, hn.mem_image⟩
    · have hx' := Heap.mem_of_le (le_trans hr.2.1 hq) hc.1
      have hy' := Heap.mem_of_le (le_trans hr.2.1 hq) hc.2
      refine (Heap.ensures_binary_mem b .mul (Heap.mem_of_le hq he.1.mem_image) hx').bind
        fun q₁ m hq₁ hm => ?_
      refine (Heap.ensures_binary_mem b .mul
        (Heap.mem_of_le (le_trans hq hq₁) he.2.mem_image) (Heap.mem_of_le hq₁ hy')).bind
        fun q₂ l hq₂ hl => ?_
      exact Heap.ensures_binary_mem b .add (Heap.mem_of_le hq₂ hm) hl

/-- From the tangents of the first nodes, both sweeps make those of all nodes. -/
theorem Layout.mirror_foldlM_tangents (h : t.Layout openEnded) {zero zero' : Node K} {count : Nat}
    (hd : d < count) :
    ∀ (ns : List (Node K)) {done : List (Node K)} {s : Mirror K} {w w' : Array (List (Node K))},
      t.nodes = done ++ ns → (∀ n ∈ t.nodes, s.Shows n n) → s.Shows zero zero' →
      SweptBeside s d done.length w w' →
      s.Ensures (ns.foldlM (fun w n => return w.push (← b.tangents t 1 zero w n)) w)
        (ns.foldlM (fun w n => return w.push (← b.tangents t count zero' w n)) w')
        fun r => SweptBeside r d t.nodes.length
  | [], done, s, w, w', hns, hp, hzero, hw => by
    rw [List.append_nil] at hns
    exact .pure (hns ▸ hw)
  | n :: ns, done, s, w, w', hns, hp, hzero, hw => by
    have hn : t.nodes[done.length]? = some n := by simp [hns]
    rw [List.foldlM_cons, List.foldlM_cons, bind_assoc, bind_assoc]
    refine (h.mirror_tangents hp hw hn hzero hd).bind fun r row row' hr hrow => ?_
    rw [pure_bind, pure_bind]
    have hlen : (done ++ [n]).length = done.length + 1 := by simp
    exact h.mirror_foldlM_tangents hd ns (by simp [hns]) (fun m hm => (hp m hm).mono hr)
      (hzero.mono hr) (hlen ▸ (hw.mono hr).push hrow)

/-! ## Seeds -/

variable {seed : List (SparseMatrix K)} {seeds : List (List (SparseMatrix K))}

/-- The seeds of one direction, beside those of all directions. -/
theorem forall₂_seedRows (hseeds : ∀ sd ∈ seeds, ∀ n ∈ nonzerosOf sd, s.Shows n n)
    (hd : seeds[d]? = some seed) {zero zero' : Node K} (hzero : s.Shows zero zero') (count : Nat) :
    List.Forall₂ (Beside s.Shows (· ∈ s.image) d) (seedRows count zero [seed])
      (seedRows count zero' seeds) := by
  have hget : ∀ sd ∈ seeds, ∀ p, s.Shows ((nonzerosOf sd).getD p zero)
      ((nonzerosOf sd).getD p zero') := fun sd hsd p =>
    forall₂_getD (List.forall₂_same.2 (hseeds sd hsd)) hzero p
  simp only [seedRows, List.forall₂_map_left_iff, List.forall₂_map_right_iff, List.map_map]
  refine List.forall₂_same.2 fun p _ => ⟨⟨_, _, rfl, ?_, hget seed (List.mem_of_getElem? hd) p⟩, ?_⟩
  · rw [List.getElem?_map, hd]
    rfl
  · intro n hn
    obtain ⟨sd, hsd, rfl⟩ := List.mem_map.1 hn
    exact (hget sd hsd p).mem_image

theorem sweptBeside_seedRows (hseeds : ∀ sd ∈ seeds, ∀ n ∈ nonzerosOf sd, s.Shows n n)
    (hd : seeds[d]? = some seed) {zero zero' : Node K} (hzero : s.Shows zero zero') (count : Nat) :
    SweptBeside s d count (seedRows count zero [seed]).toArray
      (seedRows count zero' seeds).toArray := by
  have hrows := forall₂_seedRows hseeds hd hzero count
  refine ⟨by simp [seedRows], by simp [seedRows], fun i hi => ?_⟩
  have hi' : ∀ z sds, i < (seedRows count z sds : List (List (Node K))).length := fun z sds => by
    simpa [seedRows] using hi
  simpa [hi', -getElem?_pos] using List.forall₂_iff_get.1 hrows |>.2 i (hi' _ _) (hi' _ _)

/-- The tangents of all nodes in one direction, beside those in all directions. -/
theorem Layout.mirror_forwardSweep (h : t.Layout openEnded) (hp : ∀ n ∈ t.nodes, s.Shows n n)
    (hseeds : ∀ sd ∈ seeds, ∀ n ∈ nonzerosOf sd, s.Shows n n) (hd : seeds[d]? = some seed)
    {zero zero' : Node K} (hzero : s.Shows zero zero') :
    s.Ensures (b.forwardSweep t zero [seed]) (b.forwardSweep t zero' seeds) fun r =>
      SweptBeside r d t.nodes.length := by
  have hlt : d < seeds.length := (List.getElem?_eq_some_iff.1 hd).1
  refine h.mirror_foldlM_tangents hlt _ (List.take_append_drop t.width t.nodes).symm hp hzero ?_
  rw [h.length_take_width]
  exact sweptBeside_seedRows hseeds hd hzero t.width

end Tape

/-! ## Backward -/

namespace Builder

variable {t : Tape K} {openEnded : Bool} {s s' : Mirror K} {b : Builder} {d i : Nat}
  {row row' : Adjoints K} {w w' : Array (Adjoints K)}

/-- Where there is no adjoint, nothing is passed on. -/
theorem passRow_none {a : Option (Node K)} (h : w.getD i [] = [a]) (dx : Node K) :
    b.passRow w i dx [none] = pure w := by
  have hset : w.setIfInBounds i [a] = w := by
    refine Array.ext_getElem? fun j => ?_
    rw [Array.getElem?_setIfInBounds]
    split_ifs with hij hlt
    · subst hij
      simpa [hlt] using h.symm
    · simp_all
    · rfl
  have hpass : b.passRow w i dx [none] = (do
      let sum ← ((w.getD i []).zip [none]).mapM fun s => b.accumulate s.1 s.2
      return w.setIfInBounds i sum) := rfl
  rw [hpass, h]
  exact congrArg (pure : _ → Build (Array (Adjoints K))) hset

/-! ### One step -/

/-- The adjoints of a node in one direction, beside those in all directions. -/
abbrev AdjointsBeside (s : Mirror K) (d : Nat) : Adjoints K → Adjoints K → Prop :=
  Beside (Option.Rel s.Shows) (fun o => ∀ n ∈ o, n ∈ s.image) d

theorem rel_mono (hs : s ≤ s') {a a' : Option (Node K)} (h : Option.Rel s.Shows a a') :
    Option.Rel s'.Shows a a' := by
  cases h with
  | some hn => exact .some (hn.mono hs)
  | none => exact .none

theorem mem_image_of_rel {a a' : Option (Node K)} (h : Option.Rel s.Shows a a') :
    ∀ n ∈ a', n ∈ s.image := by
  cases h with
  | some hn => simpa using hn.mem_image
  | none => simp

theorem AdjointsBeside.mono (hs : s ≤ s') (h : AdjointsBeside s d row row') :
    AdjointsBeside s' d row row' :=
  h.imp (fun _ _ h => rel_mono hs h) fun _ h n hn => Heap.mem_of_le hs.2.1 (h n hn)

/-- Contributions are added to adjoints on both sides. -/
theorem mirror_accumulate {a a' v v' : Option (Node K)} (ha : Option.Rel s.Shows a a')
    (hv : Option.Rel s.Shows v v') :
    s.Ensures (b.accumulate a v) (b.accumulate a' v') fun r => Option.Rel r.Shows := by
  cases hv with
  | none =>
    cases ha with
    | none => exact .pure .none
    | some ha => exact .pure (.some ha)
  | @some v v' hv =>
    have hzero : v'.isZero = v.isZero := by
      rw [hv.2]
      exact (s.copies.copy hv.1).isZero
    cases ha with
    | none =>
      simp only [accumulate, hzero]
      split_ifs
      · exact .pure .none
      · exact .pure (.some hv)
    | some ha =>
      simp only [accumulate, hzero]
      split_ifs
      · exact .pure (.some ha)
      · exact (Mirror.ensures_binary b .add ha hv).bind fun r n m _ hn => .pure (.some hn)

theorem ensures_accumulate_mem {q : Heap K} {a v : Option (Node K)} (ha : ∀ n ∈ a, n ∈ q)
    (hv : ∀ n ∈ v, n ∈ q) : q.Ensures (b.accumulate a v) fun r o => ∀ n ∈ o, n ∈ r := by
  have hrel : ∀ {o : Option (Node K)}, (∀ n ∈ o, n ∈ q) →
      Option.Rel (Mirror.start q le_rfl le_rfl).Shows o o := by
    intro o ho
    cases o with
    | none => exact .none
    | some n => exact .some ⟨ho n rfl, (Node.renumber_id n).symm⟩
  exact ((mirror_accumulate (hrel ha) (hrel hv)).imp fun r _ _ _ h => mem_image_of_rel h).image
    (P := fun r o => ∀ n ∈ o, n ∈ r)

/-- Adjoints in one direction, beside those in all directions, at all positions. -/
structure BorneBeside (t : Tape K) (s : Mirror K) (d : Nat) (w w' : Array (Adjoints K)) :
    Prop where
  size : w.size = t.nodes.length
  size' : w'.size = t.nodes.length
  row : ∀ i < t.nodes.length, AdjointsBeside s d (w.getD i []) (w'.getD i [])

theorem BorneBeside.mono (hs : s ≤ s') (h : BorneBeside t s d w w') : BorneBeside t s' d w w' :=
  ⟨h.size, h.size', fun i hi => (h.row i hi).mono hs⟩

theorem BorneBeside.accumulateAt (h : BorneBeside t s d w w') (hi : i < t.nodes.length)
    (hrow : AdjointsBeside s d row row') :
    s.Ensures (b.accumulateAt w i row) (b.accumulateAt w' i row') fun r => BorneBeside t r d := by
  have hget : ∀ {v : Array (Adjoints K)} {sum : Adjoints K} {j : Nat}, v.size = t.nodes.length →
      (v.setIfInBounds i sum).getD j [] = if i = j then sum else v.getD j [] := by
    intro v sum j hv
    simp only [Array.getD_eq_getD_getElem?, Array.getElem?_setIfInBounds, hv, hi, if_true]
    split_ifs <;> rfl
  refine (Mirror.Ensures.mapM (S := fun r => Option.Rel r.Shows)
    (Q := fun q o => ∀ n ∈ o, n ∈ q) (fun _ _ _ _ hr h => rel_mono hr h)
    (fun _ _ _ hq h n hn => Heap.mem_of_le hq (h n hn)) ((h.row i hi).zip hrow)
    (fun r p c hr hpc _ => ?_) fun q c hq hc => ?_).bind fun r sum sum' hr hsum => .pure ?_
  · exact (mirror_accumulate (rel_mono hr hpc.1) (rel_mono hr hpc.2)).imp fun _ _ _ _ hn =>
      ⟨hn, mem_image_of_rel hn⟩
  · exact ensures_accumulate_mem (fun n hn => Heap.mem_of_le hq (hc.1 n hn))
      fun n hn => Heap.mem_of_le hq (hc.2 n hn)
  · refine ⟨by simpa using h.size, by simpa using h.size', fun j hj => ?_⟩
    rw [hget h.size, hget h.size']
    split_ifs
    · exact hsum
    · exact (h.row j hj).mono hr

/-- Adjoints are passed on to an operand on both sides. Where the one direction has none, the
derivative need not be there on its side. -/
theorem BorneBeside.passRow (h : BorneBeside t s d w w') (hi : i < t.nodes.length)
    (hrow : AdjointsBeside s d row row') {dx dx' : Node K} (hdx' : dx' ∈ s.image)
    (hdx : row = [none] ∨ s.Shows dx dx') :
    s.Ensures (b.passRow w i dx row) (b.passRow w' i dx' row') fun r => BorneBeside t r d := by
  have hrow' : Beside (fun a c => Option.Rel s.Shows a c ∧ (a = none ∨ s.Shows dx dx'))
      (fun o => ∀ n ∈ o, n ∈ s.image) d row row' := by
    obtain ⟨⟨a, c, rfl, hc, hac⟩, hall⟩ := hrow
    exact ⟨⟨a, c, rfl, hc, hac, hdx.imp_left fun h => by simpa using h⟩, hall⟩
  refine (Mirror.Ensures.mapM (S := fun r => Option.Rel r.Shows)
    (Q := fun q o => ∀ n ∈ o, n ∈ q) (fun _ _ _ _ hr h => rel_mono hr h)
    (fun _ _ _ hq h n hn => Heap.mem_of_le hq (h n hn)) hrow' (fun r a c hr hac _ => ?_)
    fun q c hq hc => ?_).bind fun r rows rows' hr hrows => (h.mono hr).accumulateAt hi hrows
  · obtain ⟨hrel, hshows⟩ := hac
    cases hrel with
    | none => exact .pure ⟨.none, by simp⟩
    | some hn =>
      have hmul := Mirror.ensures_binary b .mul ((hshows.resolve_left (by simp)).mono hr)
        (hn.mono hr)
      exact hmul.bind fun _ _ _ _ hm => .pure ⟨.some hm, by simpa using hm.mem_image⟩
  · cases c with
    | none => exact .pure (by simp)
    | some n =>
      have hmul := Heap.ensures_binary_mem b .mul (Heap.mem_of_le hq hdx')
        (Heap.mem_of_le hq (hc n rfl))
      exact hmul.bind fun _ _ _ hm => .pure (by simpa using hm)

/-- One step of both sweeps : a node passes its adjoints on. -/
theorem mirror_passBack (h : t.Layout openEnded) (hp : ∀ n ∈ t.nodes, s.Shows n n) {n : Node K}
    (hn : t.nodes[i]? = some n) (hw : BorneBeside t s d w w') :
    s.Ensures (b.passBack t n i w) (b.passBack t n i w') fun r => BorneBeside t r d := by
  have hself := hp n (List.mem_of_getElem? hn)
  have hi : i < t.nodes.length := (List.getElem?_eq_some_iff.1 hn).1
  have hplace : ∀ {x : Node K}, x ∈ n.operands → t.position x < t.nodes.length := fun hx =>
    ((h.getElem?_operand (fun n hn => (hp n hn).1) hn hx).1.trans hi)
  have hone : ∀ {x : Node K}, x ∈ n.operands → ∃ a, w.getD (t.position x) [] = [a] := fun hx => by
    obtain ⟨a, -, ha, -⟩ := (hw.row _ (hplace hx)).entry
    exact ⟨a, ha⟩
  have hrow := hw.row i hi
  -- The common sweep passes over a node only if the other one does.
  have hall : (w'.getD i []).all (·.isNone) → (w.getD i []).all (·.isNone) := by
    intro hall
    obtain ⟨a, c, ha, hc, hac⟩ := hrow.entry
    have hnone := List.all_eq_true.1 hall c (List.mem_of_getElem? hc)
    cases hac with
    | none => simp [ha]
    | some _ => cases hnone
  have hnone : (w.getD i []).all (·.isNone) → w.getD i [] = [none] := by
    intro hskip
    obtain ⟨a, -, ha, -⟩ := hrow.entry
    rw [ha] at hskip ⊢
    simpa using hskip
  cases n with
  | const id v =>
    rw [passBack_leaf rfl, passBack_leaf rfl]
    exact .pure hw
  | symbol id name =>
    rw [passBack_leaf rfl, passBack_leaf rfl]
    exact .pure hw
  | unary id u x =>
    have hx : x ∈ (Node.unary id u x).operands := by simp [Node.operands]
    have hshows := hself.operand hx
    rw [passBack_unary, passBack_unary]
    refine .ite hall (.pure hw) (fun hskip => ?_) fun _ => ?_
    · rw [hnone hskip] at hrow
      obtain ⟨a, ha⟩ := hone hx
      rw [← passRow_none ha x]
      refine Mirror.Ensures.aside
        (Heap.ensures_slope_mem b u hshows.mem_image hself.mem_image) fun r dx' hr hdx' => ?_
      exact (hw.mono hr).passRow (hplace hx) (hrow.mono hr) hdx' (Or.inl rfl)
    · refine (Mirror.ensures_slope b u hshows hself).bind fun r dx dx' hr hdx => ?_
      exact (hw.mono hr).passRow (hplace hx) (hrow.mono hr) hdx.mem_image (Or.inr hdx)
  | binary id op x y =>
    have hx : x ∈ (Node.binary id op x y).operands := by simp [Node.operands]
    have hy : y ∈ (Node.binary id op x y).operands := by simp [Node.operands]
    have hshowsx := hself.operand hx
    have hshowsy := hself.operand hy
    rw [passBack_binary, passBack_binary]
    refine .ite hall (.pure hw) (fun hskip => ?_) fun _ => ?_
    · rw [hnone hskip] at hrow
      obtain ⟨a, hax⟩ := hone hx
      obtain ⟨a', hay⟩ := hone hy
      have hnothing : pure w = (do
          let v ← b.passRow w (t.position x) x [none]
          b.passRow v (t.position y) y [none]) := by
        rw [passRow_none hax, pure_bind, passRow_none hay]
      rw [hnothing]
      refine Mirror.Ensures.aside (Heap.ensures_slopes_mem b op hshowsx.mem_image
        hshowsy.mem_image hself.mem_image) fun r e' hr he' => ?_
      refine ((hw.mono hr).passRow (hplace hx) (hrow.mono hr) he'.1 (Or.inl rfl)).bind
        fun r' v v' hr' hv => ?_
      exact hv.passRow (hplace hy) (hrow.mono (le_trans hr hr'))
        (Heap.mem_of_le hr'.2.1 he'.2) (Or.inl rfl)
    · refine (Mirror.ensures_slopes b op hshowsx hshowsy hself).bind fun r e e' hr he => ?_
      refine ((hw.mono hr).passRow (hplace hx) (hrow.mono hr) he.1.mem_image (Or.inr he.1)).bind
        fun r' v v' hr' hv => ?_
      exact hv.passRow (hplace hy) (hrow.mono (le_trans hr hr')) (he.2.mono hr').mem_image
        (Or.inr (he.2.mono hr'))

/-! ### The sweep -/

theorem borneBeside_replicate (t : Tape K) (s : Mirror K) {count : Nat} (hd : d < count) :
    BorneBeside t s d (Array.replicate t.nodes.length (List.replicate 1 none))
      (Array.replicate t.nodes.length (List.replicate count none)) := by
  refine ⟨by simp, by simp, fun i hi => ⟨⟨none, none, ?_, ?_, .none⟩, ?_⟩⟩
  · simp [hi]
  · simp [hi, hd]
  · simp [hi]

theorem forall₂_zip {α β : Type} {S : α → β → Prop} {as : List α} {bs : List β}
    (h : List.Forall₂ S as bs) :
    ∀ ps : List Nat, List.Forall₂ (fun x y => x.1 = y.1 ∧ x.1 ∈ ps ∧ S x.2 y.2) (ps.zip as)
      (ps.zip bs) := by
  induction h with
  | nil => simp
  | cons hab _ ih =>
    rintro (_ | ⟨p, ps⟩)
    · simp
    · refine .cons ⟨rfl, List.mem_cons_self, hab⟩ ((ih ps).imp fun _ _ h => ?_)
      exact ⟨h.1, List.mem_cons_of_mem _ h.2.1, h.2.2⟩

variable {seed : List (SparseMatrix K)} {seeds : List (List (SparseMatrix K))}

/-- The adjoints of all nodes in one direction, beside those in all directions. -/
theorem mirror_backwardSweep (h : t.Layout openEnded) (hp : ∀ n ∈ t.nodes, s.Shows n n)
    (hseeds : ∀ sd ∈ seeds, ∀ n ∈ Tape.nonzerosOf sd, s.Shows n n) (hd : seeds[d]? = some seed)
    {zero zero' : Node K} (hzero : s.Shows zero zero') :
    s.Ensures (b.backwardSweep t zero [seed]) (b.backwardSweep t zero' seeds) fun r =>
      BorneBeside t r d := by
  have hlt : d < seeds.length := (List.getElem?_eq_some_iff.1 hd).1
  have hpositions : ∀ i ∈ t.results.flatten, i < t.nodes.length := by
    intro i hi
    rw [Tape.flatten_results] at hi
    obtain ⟨n, hn, rfl⟩ := List.mem_map.1 hi
    exact h.position_output_lt hn
  have hstart : s.Ensures (b.backwardStart t zero [seed]) (b.backwardStart t zero' seeds) fun r =>
      BorneBeside t r d := by
    refine Mirror.Ensures.foldlM (I := fun r => BorneBeside t r d)
      (forall₂_zip (Tape.forall₂_seedRows hseeds hd hzero _) t.results.flatten) ?_
      (borneBeside_replicate t s hlt)
    rintro r ⟨i, row⟩ ⟨j, row'⟩ v v' hr ⟨rfl, hi, hrow⟩ hv
    refine hv.accumulateAt (hpositions i hi) (hrow.map (fun _ _ h => .some (h.mono hr)) ?_)
    intro n hn
    simpa using Heap.mem_of_le hr.2.1 hn
  refine hstart.bind fun r v v' hr hv => ?_
  refine Mirror.Ensures.foldlM (S := fun x y => x = y ∧ t.nodes[x.2]? = some x.1)
    (I := fun r => BorneBeside t r d) (List.forall₂_same.2 ?_) ?_ hv
  · intro x hx
    exact ⟨rfl, List.mem_zipIdx_iff_getElem?.1 (List.mem_reverse.1 hx)⟩
  · rintro r' ⟨n, i⟩ _ u u' hr' ⟨rfl, hn⟩ hu
    exact mirror_passBack h (fun n hn => ((hp n hn).mono hr).mono hr') hn hu

end Builder

/-! ## Sensitivities -/

/-- The expressions in a matrix. -/
def SparseMatrix.expressions (m : SparseMatrix K) : SparseMatrix K :=
  { m with nonzeros := m.nonzeros.map Node.expression }

namespace Tape

variable {t : Tape K} {openEnded : Bool} {s : Mirror K} {b : Builder} {d : Nat} {side : Side}
  {seed : List (SparseMatrix K)} {seeds : List (List (SparseMatrix K))}

/-- The sensitivities in one direction are the same expressions as those at `d` of all
directions. -/
def SameExpressions (d : Nat) (sens sens' : List (List (SparseMatrix K))) : Prop :=
  ∃ sen sen', sens = [sen] ∧ sens'[d]? = some sen' ∧
    sen'.map (·.expressions) = sen.map (·.expressions)

theorem sameExpressions_sensitivities {matrices : List (SparseMatrix K)} {count : Nat}
    (hd : d < count) {entry entry' : Nat → Node K → Node K}
    (h : ∀ n ∈ nonzerosOf matrices, s.Shows (entry 0 n) (entry' d n)) :
    SameExpressions d (sensitivities matrices 1 entry) (sensitivities matrices count entry') := by
  refine ⟨_, _, rfl, by rw [sensitivities, List.getElem?_map, List.getElem?_range hd]; rfl, ?_⟩
  rw [List.map_map, List.map_map]
  refine List.map_congr_left fun m hm => ?_
  have hnonzeros : ∀ n ∈ m.nonzeros,
      (entry' d n).expression = (entry 0 n).expression := fun n hn => by
    obtain ⟨hmem, hcopy⟩ := h n (List.mem_flatMap.2 ⟨m, hm, hn⟩)
    rw [hcopy, Mirror.expression_copy hmem]
  simpa [SparseMatrix.expressions] using hnonzeros

/-- A direction by itself has, at every nonzero, the same expression as among others. -/
theorem Layout.mirror_sensitivitiesOf (h : t.Layout openEnded) (b : Builder) (side : Side)
    (hp : ∀ n ∈ t.nodes, s.Shows n n) (hseeds : ∀ sd ∈ seeds, ∀ n ∈ nonzerosOf sd, s.Shows n n)
    (hd : seeds[d]? = some seed) :
    s.Ensures (b.sensitivitiesOf t side [seed]) (b.sensitivitiesOf t side seeds) fun _ =>
      SameExpressions d := by
  have hlt : d < seeds.length := (List.getElem?_eq_some_iff.1 hd).1
  cases side with
  | input =>
    refine (Mirror.ensures_newConst _).bind fun r zero zero' hr hzero => ?_
    refine (h.mirror_forwardSweep (fun n hn => (hp n hn).mono hr)
      (fun sd hsd n hn => (hseeds sd hsd n hn).mono hr) hd hzero).bind fun r' w w' hr' hw => ?_
    refine .pure (sameExpressions_sensitivities (s := r') hlt fun n hn => ?_)
    obtain ⟨m, m', hm, hm', hshows⟩ := (hw.row _ (h.position_output_lt hn)).entry
    rw [hm, List.getD_eq_getElem?_getD, List.getD_eq_getElem?_getD, hm']
    exact hshows
  | output =>
    refine (Mirror.ensures_newConst _).bind fun r zero zero' hr hzero => ?_
    refine (Builder.mirror_backwardSweep h (fun n hn => (hp n hn).mono hr)
      (fun sd hsd n hn => (hseeds sd hsd n hn).mono hr) hd hzero).bind fun r' w w' hr' hw => ?_
    refine .pure (sameExpressions_sensitivities (s := r') hlt fun n hn => ?_)
    obtain ⟨a, a', ha, ha', hrel⟩ := (hw.row _ (h.position_input_lt hn)).entry
    rw [ha, List.getD_eq_getElem?_getD, List.getD_eq_getElem?_getD, ha']
    cases hrel with
    | none => exact hzero.mono hr'
    | some hm => exact hm

/-- Directions do not influence each other : in either order of two runs, and whatever is made
between them, the derivatives for one of several accepted seeds are, nonzero by nonzero, the same
expressions as the derivatives for this seed alone. -/
theorem directions_independent [Numeral K] {name : String} {inputs outputs : List (SparseMatrix K)}
    (ht : layOut openEnded name inputs outputs = .ok t) (b : Builder) {next : Nat}
    (hbuilt : t.BuiltWith seeds next) (hc : t.checkSeeds side seeds = .ok ())
    (hd : seeds[d]? = some seed) {now later : Nat} (hnow : next ≤ now) (hlater : next ≤ later) :
    ∃ sens sen now' sen' later',
      (b.differentiate t side seeds).run now = (.ok sens, now') ∧ sens[d]? = some sen ∧
      (b.differentiate t side [seed]).run later = (.ok [sen'], later') ∧
      sen.map (·.expressions) = sen'.map (·.expressions) := by
  have h := layout_of_layOut ht
  obtain ⟨nodes, hbuilt, hin, hout, hseeds⟩ := hbuilt
  obtain ⟨p, rfl, hp⟩ := hbuilt.exists_heap
  have hshows : ∀ {n : Node K}, n ∈ p → (Mirror.start p hlater hnow).Shows n n := fun hn =>
    ⟨hn, (Node.renumber_id _).symm⟩
  have hnodes := h.mem_heap (fun n hn => hp n (hin n hn)) (fun n hn => hp n (hout n hn))
  obtain ⟨s, -, -, -, sen', sen, hone, hsen, hsame⟩ :=
    h.mirror_sensitivitiesOf b side (fun n hn => hshows (hnodes n hn))
      (fun sd hsd n hn => hshows (hp n (hseeds sd hsd n hn))) hd
  have hc' : t.checkSeeds side [seed] = .ok () := by
    refine checkSeeds_of_patterns fun sd hsd => ?_
    rw [List.mem_singleton.1 hsd]
    exact checkSeeds_ok hc (List.mem_of_getElem? hd)
  have hrun := Builder.differentiate_run (b := b) hc' later
  rw [show (b.sensitivitiesOf t side [seed] later).1 = [sen'] from hone] at hrun
  exact ⟨_, sen, _, sen', _, Builder.differentiate_run hc now, hsen, hrun, hsame⟩

/-! ## Directions of a sine and a product -/

namespace SineProduct

def one : Node Float := .const 7 1
def zero : Node Float := .const 8 0
def u : Node Float := .symbol 9 "u"
def v : Node Float := .symbol 10 "v"

/-- A direction of constants and a direction of symbols. -/
def directions : List (List (SparseMatrix Float)) :=
  [[column 5 [one, zero]], [column 5 [u, v]]]

/-- Weights of both outputs, and a weight of the product alone. -/
def weights : List (List (SparseMatrix Float)) :=
  [[column 6 [u, v]], [column 6 [zero, one]]]

theorem built : Built 11 [v, u, zero, one, product, sine, y, x] := by
  have hleaves : Built 3 [y, x] := ((Built.start 1).symbol "x").symbol "y"
  have hsine : Built 4 [sine, y, x] := hleaves.unary_of_step (b := ⟨0⟩) (by simp) (by rfl)
  have hproduct : Built 5 [product, sine, y, x] :=
    hsine.binary_of_step (b := ⟨0⟩) (by simp) (by simp) (by rfl)
  exact (((hproduct.draw.draw.const 1).const 0).symbol "u").symbol "v"

theorem builtWith_directions : tape.BuiltWith directions 11 :=
  ⟨_, built, by simp [tape, column, nonzerosOf], by simp [tape, column, nonzerosOf],
    by simp [directions, column, nonzerosOf]⟩

theorem builtWith_weights : tape.BuiltWith weights 11 :=
  ⟨_, built, by simp [tape, column, nonzerosOf], by simp [tape, column, nonzerosOf],
    by simp [weights, column, nonzerosOf]⟩

end SineProduct

/-- Backward, the sine has an adjoint in the first direction only. -/
theorem directions_independent_sineProduct :
    layOut false "sine_product" SineProduct.tape.inputs SineProduct.tape.outputs =
        .ok SineProduct.tape ∧
      SineProduct.tape.BuiltWith SineProduct.directions 11 ∧
      SineProduct.tape.checkSeeds .input SineProduct.directions = .ok () ∧
      SineProduct.tape.BuiltWith SineProduct.weights 11 ∧
      SineProduct.tape.checkSeeds .output SineProduct.weights = .ok () ∧
      (∃ sens sen now' sen' later',
        ((⟨1⟩ : Builder).forward SineProduct.tape SineProduct.directions).run 20 =
          (.ok sens, now') ∧ sens[1]? = some sen ∧
        ((⟨1⟩ : Builder).forward SineProduct.tape
          [[SineProduct.column 5 [SineProduct.u, SineProduct.v]]]).run 11 = (.ok [sen'], later') ∧
        sen.map (·.expressions) = sen'.map (·.expressions)) ∧
      ∃ sens sen now' sen' later',
        ((⟨1⟩ : Builder).backward SineProduct.tape SineProduct.weights).run 11 =
          (.ok sens, now') ∧ sens[1]? = some sen ∧
        ((⟨1⟩ : Builder).backward SineProduct.tape
          [[SineProduct.column 6 [SineProduct.zero, SineProduct.one]]]).run 20 =
          (.ok [sen'], later') ∧
        sen.map (·.expressions) = sen'.map (·.expressions) := by
  have htape : layOut false "sine_product" SineProduct.tape.inputs SineProduct.tape.outputs =
      .ok SineProduct.tape := by rfl
  have hinput : SineProduct.tape.checkSeeds .input SineProduct.directions = .ok () := by rfl
  have houtput : SineProduct.tape.checkSeeds .output SineProduct.weights = .ok () := by rfl
  refine ⟨htape, SineProduct.builtWith_directions, hinput, SineProduct.builtWith_weights, houtput,
    ?_, ?_⟩
  · exact directions_independent htape ⟨1⟩ SineProduct.builtWith_directions hinput (d := 1) rfl
      (by decide) (by decide)
  · exact directions_independent htape ⟨1⟩ SineProduct.builtWith_weights houtput (d := 1) rfl
      (by decide) (by decide)

end Tape

end Tangent
