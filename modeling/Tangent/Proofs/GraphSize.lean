import Mathlib.Data.Set.Card
import Std.Data.HashMap.Lemmas
import Tangent.Node.Apply
import Tangent.Proofs.NormalForm

/-!
# Simplifying never makes a graph larger

However many rules apply one after the other, a builder makes one node at the end, or none
(`MadeOf`). What a form settles to is made of nodes that its operands reach, so rebuilding needs no
nodes but the leaves of the old graph and one new node for each operation that is rebuilt
(`Progress`). Every operation is rebuilt once, because it is remembered by its number.
-/

set_option linter.unusedSectionVars false

namespace Tangent

variable {K : Type} [Scalar K] {b : Builder}

/-! ## What is reached -/

namespace Node

theorem mem_reachedFrom {ns : List (Node K)} {n : Node K} (h : n ∈ ns) : n ∈ reachedFrom ns :=
  ⟨n, h, .refl n⟩

theorem reachedFrom_mono {ns ns' : List (Node K)} (h : ns ⊆ ns') :
    reachedFrom ns ⊆ reachedFrom ns' := by
  rintro n ⟨r, hr, hreach⟩
  exact ⟨r, h hr, hreach⟩

/-- What the operands of a node reach, the node reaches. -/
theorem reachedFrom_operands_subset (n : Node K) : reachedFrom n.operands ⊆ reachedFrom [n] := by
  rintro m ⟨x, hx, hreach⟩
  exact ⟨n, List.mem_singleton_self n, .head hx hreach⟩

/-- The leaves that the roots reach. -/
def leavesOf (roots : List (Node K)) : Set (Node K) :=
  {n | n ∈ reachedFrom roots ∧ n.operands = []}

/-- The operations that the roots reach. -/
def operationsOf (roots : List (Node K)) : Set (Node K) :=
  {n | n ∈ reachedFrom roots ∧ n.operands ≠ []}

theorem encard_reachedFrom (roots : List (Node K)) :
    (reachedFrom roots).encard = (leavesOf roots).encard + (operationsOf roots).encard := by
  rw [← Set.encard_union_eq]
  · congr 1
    ext n
    simp only [leavesOf, operationsOf, Set.mem_union, Set.mem_ofPred_eq, ← and_or_left]
    exact ⟨fun h => ⟨h, em _⟩, And.left⟩
  · exact Set.disjoint_left.2 fun n hleaf hop => hop.2 hleaf.2

end Node

open Node (reachedFrom leavesOf operationsOf)

/-! ## One node at most -/

/-- A node that was made of some others, with the next number of the supply before and after: it is
there already, or it is new and is an operation on nodes that were there, or a constant. -/
inductive MadeOf (operands : List (Node K)) (next : Nat) : Node K → Nat → Prop
  | existing {n : Node K} (hn : n ∈ reachedFrom operands) : MadeOf operands next n next
  | new {n : Node K} (hid : n.id = next) (hops : ∀ x ∈ n.operands, x ∈ reachedFrom operands) :
    MadeOf operands next n (next + 1)

theorem Builder.madeOf_make (b : Builder) (f : Form K) (next : Nat) :
    MadeOf f.operands next (b.make f next).1 (b.make f next).2 := by
  have hops : ∀ x ∈ (b.settle f).operands, x ∈ reachedFrom f.operands :=
    (operands_settle (b := b) (fun _ hn _ hx => Node.operands_mem_reachedFrom hn hx)
      fun _ => Node.mem_reachedFrom).1
  unfold make
  cases hsettle : b.settle f with
  | node n =>
    rw [hsettle] at hops
    exact .existing (hops n (by simp [Form.operands]))
  | const v => exact .new rfl (List.forall_mem_nil _)
  | unary u x =>
    rw [hsettle] at hops
    exact .new rfl hops
  | binary op x y =>
    rw [hsettle] at hops
    exact .new rfl hops

/-- Applying an operation makes one node at most, and none if the operands do not fit. -/
theorem Builder.madeOf_apply (b : Builder) (c : Opcode) (args : List (Node K)) (next : Nat) :
    (∃ n next', (b.apply c args).run next = (.ok n, next') ∧ MadeOf args next n next') ∨
      ∃ e, (b.apply c args).run next = (.error e, next) := by
  unfold apply
  split
  · next u _ =>
    split
    · next x => exact .inl ⟨_, _, rfl, madeOf_make b (.unary u x) next⟩
    · exact .inr ⟨_, rfl⟩
  · next op _ =>
    split
    · next x y => exact .inl ⟨_, _, rfl, madeOf_make b (.binary op x y) next⟩
    · exact .inr ⟨_, rfl⟩
  · exact .inr ⟨_, rfl⟩

theorem MadeOf.next_le {operands : List (Node K)} {next next' : Nat} {n : Node K}
    (h : MadeOf operands next n next') : next ≤ next' ∧ next' ≤ next + 1 := by
  cases h <;> omega

/-! ## Rebuilding -/

/-- All that the node reaches is one of the leaves, or has a number that was drawn from `start`
on. -/
def Node.BuiltOn (leaves : Set (Node K)) (start : Nat) (n : Node K) : Prop :=
  ∀ m, n.Reaches m → m ∈ leaves ∨ start ≤ m.id

theorem Node.builtOn_of_leaf {leaves : Set (Node K)} {start : Nat} {n : Node K} (hn : n ∈ leaves)
    (hops : n.operands = []) : n.BuiltOn leaves start := by
  intro m hm
  rcases reaches_iff.1 hm with rfl | ⟨x, hx, -⟩
  · exact .inl hn
  · rw [hops] at hx
    cases hx

theorem MadeOf.builtOn {leaves : Set (Node K)} {start next next' : Nat} {operands : List (Node K)}
    {n : Node K} (h : MadeOf operands next n next') (hstart : start ≤ next)
    (hops : ∀ x ∈ operands, x.BuiltOn leaves start) : n.BuiltOn leaves start := by
  have hreached : ∀ x ∈ reachedFrom operands, x.BuiltOn leaves start := by
    rintro x ⟨r, hr, hreach⟩ m hm
    exact hops r hr m (Relation.ReflTransGen.trans hreach hm)
  cases h with
  | existing hn => exact hreached n hn
  | new hid hnew =>
    intro m hm
    rcases Node.reaches_iff.1 hm with rfl | ⟨x, hx, hm⟩
    · exact .inr (hid ▸ hstart)
    · exact hreached x (hnew x hx) m hm

/-- What happens while some nodes are rebuilt: what was remembered stays, only operations that the
nodes reach are remembered in addition, and no more numbers are drawn than these are. -/
structure Progress (ns : List (Node K)) (done : Builder.Rebuilt K) (next : Nat)
    (done' : Builder.Rebuilt K) (next' : Nat) : Prop where
  keeps : ∀ (i : Nat) (r : Node K), done[i]? = some r → done'[i]? = some r
  added : ∀ i ∈ done', i ∈ done ∨ ∃ m ∈ operationsOf ns, m.id = i
  drawn : next' + done.size ≤ next + done'.size
  next_le : next ≤ next'

namespace Progress

variable {ns ns' : List (Node K)} {done mid done' : Builder.Rebuilt K} {next middle next' : Nat}

theorem refl (ns : List (Node K)) (done : Builder.Rebuilt K) (next : Nat) :
    Progress ns done next done next :=
  ⟨fun _ _ h => h, fun _ h => .inl h, Nat.le_refl _, Nat.le_refl _⟩

theorem trans (h : Progress ns done next mid middle) (h' : Progress ns mid middle done' next') :
    Progress ns done next done' next' where
  keeps i r hr := h'.keeps i r (h.keeps i r hr)
  added i hi := (h'.added i hi).elim (h.added i) .inr
  drawn := by
    have := h.drawn
    have := h'.drawn
    omega
  next_le := h.next_le.trans h'.next_le

theorem mono (h : Progress ns done next done' next') (hns : reachedFrom ns ⊆ reachedFrom ns') :
    Progress ns' done next done' next' :=
  { h with added := fun i hi => (h.added i hi).imp_right fun ⟨m, hm, hid⟩ =>
      ⟨m, ⟨hns hm.1, hm.2⟩, hid⟩ }

/-- Nodes that were rebuilt before stay rebuilt to the same. -/
theorem rebuiltTo_eq (h : Progress ns done next done' next') {n : Node K}
    (hn : IsRebuilt done n) : IsRebuilt done' n ∧ rebuiltTo done' n = rebuiltTo done n := by
  by_cases hleaf : n.operands = []
  · exact ⟨.inl hleaf, by rw [rebuiltTo_of_leaf hleaf, rebuiltTo_of_leaf hleaf]⟩
  · obtain ⟨r, hr⟩ := hn.resolve_left hleaf
    have hr' := h.keeps n.id r hr
    exact ⟨.inr ⟨r, hr'⟩, by rw [rebuiltTo_of_getElem? hleaf hr, rebuiltTo_of_getElem? hleaf hr']⟩

end Progress

/-- Everything that was rebuilt is built on the leaves, with numbers from `start` on. -/
def RebuiltOn (leaves : Set (Node K)) (start : Nat) (done : Builder.Rebuilt K) : Prop :=
  ∀ (i : Nat) (r : Node K), done[i]? = some r → r.BuiltOn leaves start

/-- What rebuilding some nodes, one after the other, leads to. -/
structure Rebuilds (leaves : Set (Node K)) (start : Nat) (ns : List (Node K))
    (done : Builder.Rebuilt K) (next : Nat) (s : (List (Node K) × Builder.Rebuilt K) × Nat) :
    Prop where
  progress : Progress ns done next s.1.2 s.2
  isRebuilt : ∀ n ∈ ns, IsRebuilt s.1.2 n
  eq : s.1.1 = ns.map (rebuiltTo s.1.2)
  builtOn : ∀ n ∈ s.1.1, n.BuiltOn leaves start
  rebuiltOn : RebuiltOn leaves start s.1.2

namespace Rebuilds

variable {leaves : Set (Node K)} {start next : Nat} {done : Builder.Rebuilt K} {n : Node K}
  {ns : List (Node K)} {G : Graph K}

/-- A leaf is its own result. -/
theorem of_leaf (hn : n ∈ leaves) (hleaf : n.operands = []) (hdone : RebuiltOn leaves start done) :
    Rebuilds leaves start [n] done next (([n], done), next) where
  progress := .refl _ _ _
  isRebuilt := List.forall_mem_singleton.2 (.inl hleaf)
  eq := by rw [List.map_singleton, rebuiltTo_of_leaf hleaf]
  builtOn := List.forall_mem_singleton.2 (Node.builtOn_of_leaf hn hleaf)
  rebuiltOn := hdone

/-- An operation that was rebuilt before is looked up. -/
theorem of_done {r : Node K} (hop : n.operands ≠ []) (hr : done[n.id]? = some r)
    (hdone : RebuiltOn leaves start done) :
    Rebuilds leaves start [n] done next (([r], done), next) where
  progress := .refl _ _ _
  isRebuilt := List.forall_mem_singleton.2 (.inr ⟨r, hr⟩)
  eq := by rw [List.map_singleton, rebuiltTo_of_getElem? hop hr]
  builtOn := List.forall_mem_singleton.2 (hdone n.id r hr)
  rebuiltOn := hdone

/-- An operation whose operands were rebuilt is made of them, and remembered. -/
theorem of_operands (hn : n ∈ G) (hop : n.operands ≠ []) (hnew : done[n.id]? = none)
    {s : (List (Node K) × Builder.Rebuilt K) × Nat}
    (h : Rebuilds leaves start n.operands done next s) (hstart : start ≤ next) {r : Node K}
    {next' : Nat} (hr : MadeOf s.1.1 s.2 r next') :
    Rebuilds leaves start [n] done next (([r], s.1.2.insert n.id r), next') := by
  have hnew' : n.id ∉ s.1.2 := by
    intro hmem
    rcases h.progress.added n.id hmem with hmem | ⟨m, ⟨⟨x, hx, hreach⟩, -⟩, hid⟩
    · exact absurd hnew (Std.HashMap.mem_iff_isSome_getElem?.1 hmem |> Option.isSome_iff_ne_none.1)
    · -- An operand would reach the operation itself.
      obtain rfl := G.eq_of_id (G.mem_of_reaches (G.operands_mem hn hx) hreach) hn hid
      exact Node.not_reaches_of_mem_operands hx hreach
  have hself : (s.1.2.insert n.id r)[n.id]? = some r := Std.HashMap.getElem?_insert_self
  have hbuilt : r.BuiltOn leaves start :=
    hr.builtOn (hstart.trans h.progress.next_le) h.builtOn
  have hinsert : Progress [n] s.1.2 s.2 (s.1.2.insert n.id r) next' := by
    refine ⟨fun i r' hr' => ?_, fun i hi => ?_, ?_, hr.next_le.1⟩
    · have hne : n.id ≠ i := by
        rintro rfl
        exact hnew' (Std.HashMap.mem_iff_isSome_getElem?.2 (by simp [hr']))
      rwa [Std.HashMap.getElem?_insert, if_neg (by simpa using hne)]
    · rcases Std.HashMap.mem_insert.1 hi with hi | hi
      · exact .inr ⟨n, ⟨Node.mem_reachedFrom (List.mem_singleton_self n), hop⟩, eq_of_beq hi⟩
      · exact .inl hi
    · have := hr.next_le.2
      rw [Std.HashMap.size_insert, if_neg hnew']
      omega
  refine ⟨(h.progress.mono (Node.reachedFrom_operands_subset n)).trans hinsert,
    List.forall_mem_singleton.2 (.inr ⟨r, hself⟩), ?_, List.forall_mem_singleton.2 hbuilt, ?_⟩
  · rw [List.map_singleton, rebuiltTo_of_getElem? hop hself]
  · intro i r' hr'
    rw [Std.HashMap.getElem?_insert] at hr'
    split at hr'
    · cases hr'
      exact hbuilt
    · exact h.rebuiltOn i r' hr'

/-- Rebuilding one node and then others. -/
theorem cons {s : (Node K × Builder.Rebuilt K) × Nat}
    {s' : (List (Node K) × Builder.Rebuilt K) × Nat}
    (h : Rebuilds leaves start [n] done next (([s.1.1], s.1.2), s.2))
    (h' : Rebuilds leaves start ns s.1.2 s.2 s') :
    Rebuilds leaves start (n :: ns) done next ((s.1.1 :: s'.1.1, s'.1.2), s'.2) := by
  have hsub : ns ⊆ n :: ns := List.subset_cons_self n ns
  have hhead : [n] ⊆ n :: ns := List.cons_subset_cons n (List.nil_subset ns)
  obtain ⟨hrebuilt, heq⟩ := h'.progress.rebuiltTo_eq (h.isRebuilt n (List.mem_singleton_self n))
  refine ⟨(h.progress.mono (Node.reachedFrom_mono hhead)).trans
      (h'.progress.mono (Node.reachedFrom_mono hsub)),
    List.forall_mem_cons.2 ⟨hrebuilt, h'.isRebuilt⟩, ?_,
    List.forall_mem_cons.2 ⟨h.builtOn _ (List.mem_singleton_self _), h'.builtOn⟩, h'.rebuiltOn⟩
  have hfirst : s.1.1 = rebuiltTo s.1.2 n := List.singleton_inj.1 h.eq
  rw [List.map_cons, heq, ← hfirst, ← h'.eq]

end Rebuilds

/-- Rebuilding one node of a graph whose leaves are given. -/
theorem rebuilds_rebuild {G : Graph K} {leaves : Set (Node K)} {start : Nat}
    (hleaves : ∀ n ∈ G, n.operands = [] → n ∈ leaves) (n : Node K) :
    ∀ {done : Builder.Rebuilt K} {next : Nat}, n ∈ G → start ≤ next →
      RebuiltOn leaves start done →
      let s := b.rebuild n done next
      Rebuilds leaves start [n] done next (([s.1.1], s.1.2), s.2) := by
  induction n with
  | const id v => exact fun hn _ hdone => .of_leaf (hleaves _ hn rfl) rfl hdone
  | symbol id name => exact fun hn _ hdone => .of_leaf (hleaves _ hn rfl) rfl hdone
  | unary id u x ih =>
    intro done next hn hstart hdone
    have hop : (Node.unary id u x).operands ≠ [] := by simp [Node.operands]
    cases hd : done[id]? with
    | some r =>
      rw [Builder.rebuild_unary, hd]
      exact .of_done hop hd hdone
    | none =>
      rw [Builder.rebuild_unary_run hd]
      have hx := ih (Graph.mem_of_unary hn) hstart hdone
      exact .of_operands hn hop hd hx hstart (b.madeOf_make (.unary u _) _)
  | binary id op x y ihx ihy =>
    intro done next hn hstart hdone
    have hop : (Node.binary id op x y).operands ≠ [] := by simp [Node.operands]
    cases hd : done[id]? with
    | some r =>
      rw [Builder.rebuild_binary, hd]
      exact .of_done hop hd hdone
    | none =>
      rw [Builder.rebuild_binary_run hd]
      have hx := ihx (Graph.mem_left hn) hstart hdone
      have hy := ihy (Graph.mem_right hn) (hstart.trans hx.progress.next_le) hx.rebuiltOn
      exact .of_operands hn hop hd (hx.cons hy) hstart (b.madeOf_make (.binary op _ _) _)

theorem rebuilds_rebuildAll {G : Graph K} {leaves : Set (Node K)} {start : Nat}
    (hleaves : ∀ n ∈ G, n.operands = [] → n ∈ leaves) :
    ∀ (ns : List (Node K)) {done : Builder.Rebuilt K} {next : Nat}, (∀ n ∈ ns, n ∈ G) →
      start ≤ next → RebuiltOn leaves start done →
      Rebuilds leaves start ns done next (ns.mapM b.rebuild done next)
  | [], done, next, _, _, hdone => by
    rw [List.mapM_nil]
    exact ⟨.refl _ _ _, List.forall_mem_nil _, rfl, List.forall_mem_nil _, hdone⟩
  | n :: ns, done, next, hn, hstart, hdone => by
    obtain ⟨hhead, htail⟩ := List.forall_mem_cons.1 hn
    have hfirst := rebuilds_rebuild (b := b) hleaves n hhead hstart hdone
    rw [Builder.mapM_rebuild_cons]
    exact hfirst.cons (rebuilds_rebuildAll hleaves ns htail
      (hstart.trans hfirst.progress.next_le) hfirst.rebuiltOn)

/-! ## Counting -/

/-- The nodes that the roots reach make up a graph. -/
def Graph.reached (G : Graph K) (roots : List (Node K)) (hroots : ∀ n ∈ roots, n ∈ G) :
    Graph K where
  nodes := reachedFrom roots
  operands_mem hn hx := Node.operands_mem_reachedFrom hn hx
  eq_of_id := by
    rintro m n ⟨r, hr, hm⟩ ⟨r', hr', hn⟩
    exact G.eq_of_id (G.mem_of_reaches (hroots r hr) hm) (G.mem_of_reaches (hroots r' hr') hn)

/-- No more operations are remembered than were reached. -/
theorem Progress.size_le {roots : List (Node K)} {done : Builder.Rebuilt K} {next next' : Nat}
    (h : Progress roots ∅ next done next') : (done.size : ℕ∞) ≤ (operationsOf roots).encard := by
  have hkeys : (done.size : ℕ∞) = {i | i ∈ done.keys}.encard := by
    have hnodup : done.keys.Nodup :=
      (Std.HashMap.distinct_keys (m := done)).imp fun hne => by simpa using hne
    rw [← Std.HashMap.length_keys, ← List.toFinset_card_of_nodup hnodup,
      ← Set.encard_coe_eq_coe_finsetCard, List.coe_toFinset]
  rw [hkeys]
  refine (Set.encard_le_encard ?_).trans (Set.encard_image_le Node.id (operationsOf roots))
  intro i hi
  have hadded := h.added i (Std.HashMap.mem_keys.1 hi)
  exact hadded.resolve_left Std.HashMap.not_mem_empty

/-- Nodes of one supply are as many as their numbers at most. -/
theorem Heap.encard_new_le (q : Heap K) (start : Nat) :
    {n : Node K | n ∈ q ∧ start ≤ n.id}.encard ≤ (q.next - start : ℕ) := by
  have hcard : (Finset.Ico start q.next).card = q.next - start := Nat.card_Ico start q.next
  rw [← hcard, ← Set.encard_coe_eq_coe_finsetCard]
  refine Set.encard_le_encard_of_injOn (f := Node.id) (fun n hn => ?_) fun m hm n hn h => ?_
  · exact Finset.mem_coe.2 (Finset.mem_Ico.2 ⟨hn.2, q.id_lt hn.1⟩)
  · exact q.eq_of_id hm.1 hn.1 h

/-- What is reached after rebuilding: some of the leaves, and no more new nodes than operations were
rebuilt. -/
theorem Rebuilds.encard_le {roots : List (Node K)} {start : Nat}
    {s : (List (Node K) × Builder.Rebuilt K) × Nat}
    (h : Rebuilds (leavesOf roots) start roots ∅ start s) {q : Heap K} (hq : q.next = s.2)
    (hout : ∀ n ∈ s.1.1, n ∈ q) : (reachedFrom s.1.1).encard ≤ (reachedFrom roots).encard := by
  have hsub : reachedFrom s.1.1 ⊆ leavesOf roots ∪ {n | n ∈ q ∧ start ≤ n.id} := by
    rintro n ⟨r, hr, hreach⟩
    have hn : n ∈ q := Graph.mem_of_reaches (G := q.graph) (hout r hr) hreach
    exact (h.builtOn r hr n hreach).imp_right fun hid => ⟨hn, hid⟩
  have hdrawn : q.next - start ≤ s.1.2.size := by
    have := h.progress.drawn
    rw [Std.HashMap.size_empty] at this
    omega
  calc (reachedFrom s.1.1).encard
      ≤ (leavesOf roots).encard + {n : Node K | n ∈ q ∧ start ≤ n.id}.encard :=
        (Set.encard_le_encard hsub).trans (Set.encard_union_le _ _)
    _ ≤ (leavesOf roots).encard + (operationsOf roots).encard := by
        refine add_le_add_right ((q.encard_new_le start).trans ?_) _
        exact (Nat.cast_le.2 hdrawn).trans h.progress.size_le
    _ = (reachedFrom roots).encard := (Node.encard_reachedFrom roots).symm

/-- Simplifying never makes a graph larger. An operation that is applied to nodes makes one node at
most. However much of the graph is shared, what simplified roots reach is no more than what the
roots reach, where nodes are told apart by their numbers, before and after; and roots that are one
node stay one node. -/
theorem simplify_never_grows (b : Builder) {next : Nat} {nodes roots : List (Node K)}
    (hbuilt : Built next nodes) (hroots : ∀ n ∈ roots, n ∈ nodes) :
    (∀ (c : Opcode) (args : List (Node K)),
      (∃ n next', (b.apply c args).run next = (.ok n, next') ∧ MadeOf args next n next') ∨
        ∃ e, (b.apply c args).run next = (.error e, next)) ∧
      (reachedFrom (b.simplify roots next).1).encard ≤ (reachedFrom roots).encard ∧
      Set.InjOn Node.id (reachedFrom (roots ++ (b.simplify roots next).1)) ∧
      (b.simplify roots next).1.length = roots.length ∧
      ∀ (i j : Nat) (m n : Node K), roots[i]? = some m → roots[j]? = some n → m.same n →
        ∃ r, (b.simplify roots next).1[i]? = some r ∧ (b.simplify roots next).1[j]? = some r := by
  obtain ⟨p, rfl, hp⟩ := hbuilt.exists_heap
  have hroots : ∀ n ∈ roots, n ∈ p := fun n hn => hp n (hroots n hn)
  obtain ⟨q, hpq, hq, hout⟩ := Heap.ensures_simplify b hroots
  have hleaves : ∀ n ∈ p.graph.reached roots hroots, n.operands = [] → n ∈ leavesOf roots :=
    fun n hn hleaf => ⟨hn, hleaf⟩
  have h : Rebuilds (leavesOf roots) p.next roots ∅ p.next (roots.mapM b.rebuild ∅ p.next) :=
    rebuilds_rebuildAll hleaves roots (fun n hn => Node.mem_reachedFrom hn) (Nat.le_refl _)
      fun i r hr => by simp at hr
  have hresult : b.simplify roots p.next =
      ((roots.mapM b.rebuild ∅ p.next).1.1, (roots.mapM b.rebuild ∅ p.next).2) := rfl
  rw [hresult] at hq hout ⊢
  generalize roots.mapM b.rebuild ∅ p.next = s at h hq hout
  refine ⟨fun c args => b.madeOf_apply c args p.next, ?_, ?_, ?_, ?_⟩
  · exact h.encard_le hq fun n hn => (hout n hn).1
  · have hmem : ∀ n ∈ roots ++ s.1.1, n ∈ q.graph :=
      List.forall_mem_append.2
        ⟨fun n hn => Heap.mem_of_le hpq (hroots n hn), fun n hn => (hout n hn).1⟩
    exact fun m hm n hn hid => (q.graph.reached _ hmem).eq_of_id hm hn hid
  · rw [h.eq, List.length_map]
  · intro i j m n hm hn hsame
    obtain rfl : m = n := p.eq_of_id (hroots m (List.mem_of_getElem? hm))
      (hroots n (List.mem_of_getElem? hn)) (by simpa [Node.same] using hsame)
    exact ⟨rebuiltTo s.1.2 m, by simp [h.eq, hm], by simp [h.eq, hn]⟩

/-- Two products and their difference: the difference becomes a constant, and each product is one
node wherever it occurs. -/
theorem simplify_never_grows_twoProducts :
    Built 6 twoProducts ∧ (∀ n ∈ twoProducts, n ∈ twoProducts) ∧
      (reachedFrom (zeroAndProducts 6 7)).encard ≤ (reachedFrom twoProducts).encard ∧
      Set.InjOn Node.id (reachedFrom (twoProducts ++ zeroAndProducts 6 7)) := by
  have h := simplify_never_grows ⟨1⟩ built_twoProducts fun n hn => hn
  rw [simplify_twoProducts] at h
  exact ⟨built_twoProducts, fun n hn => hn, h.2.1, h.2.2.1⟩

end Tangent
