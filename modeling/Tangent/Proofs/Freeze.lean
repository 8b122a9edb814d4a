import Tangent.Decimal.Text
import Tangent.Proofs.LayOut

/-!
# Freezing a graph is exact

`Tape.freeze` fails only for a reason that can be told from the graph : an input nonzero is no
symbol, a symbol is an input twice, or an output reaches a symbol that is no input (`Free`). The
nodes of a tape that it gives are the inputs and what the outputs reach, each of them once and after
its operands (`Tape.Lists`).

The walk keeps a stack of its own, and looks up before it leaves a node whether the node came onto
the list in the meantime. In a graph this never happens, since a node is not reached from its
operands; so the walk lists the nodes in the order in which the recursion `postorder` does
(`postorder_of_visit`).
-/

namespace Tangent.Tape

variable {K : Type} {G : Graph K} {name : String} {openEnded : Bool}
  {inputs outputs : List (SparseMatrix K)} {t : Tape K}

/-! ## The recursion -/

/-- The list after a depth-first search from a node : unless the node is on the list, its operands
are searched from left to right, and then the node is appended. -/
def postorder : List (Node K) → Node K → List (Node K)
  | seen, .const id v => if met seen id then seen else seen ++ [.const id v]
  | seen, .symbol id s => if met seen id then seen else seen ++ [.symbol id s]
  | seen, .unary id u x =>
    if met seen id then seen else postorder seen x ++ [.unary id u x]
  | seen, .binary id op x y =>
    if met seen id then seen else postorder (postorder seen x) y ++ [.binary id op x y]

theorem postorder_eq (seen : List (Node K)) (n : Node K) :
    postorder seen n =
      if met seen n.id then seen else n.operands.foldl postorder seen ++ [n] := by
  cases n <;> rw [postorder] <;> rfl

theorem met_iff_mem {nodes : List (Node K)} (hG : ∀ m ∈ nodes, m ∈ G) {n : Node K} (hn : n ∈ G) :
    met nodes n.id ↔ n ∈ nodes := by
  rw [met_iff]
  constructor
  · rintro ⟨m, hm, hid⟩
    exact G.eq_of_id (hG m hm) hn hid ▸ hm
  · exact fun h => ⟨n, h, rfl⟩

theorem VisitedAll.mem_graph {nodes ns nodes' : List (Node K)}
    (h : VisitedAll openEnded nodes ns nodes') (hG : ∀ m ∈ nodes, m ∈ G) (hns : ∀ n ∈ ns, n ∈ G) :
    ∀ m ∈ nodes', m ∈ G := by
  intro m hm
  rcases h.reached m hm with hm | ⟨n, hn, hm⟩
  · exact hG m hm
  · exact Graph.mem_of_reaches (hns n hn) hm

/-- A node that is not on the list does not come onto it with its operands. -/
theorem VisitedAll.not_met {nodes nodes' : List (Node K)} {n : Node K}
    (h : VisitedAll openEnded nodes n.operands nodes') (hG : ∀ m ∈ nodes, m ∈ G) (hn : n ∈ G)
    (hnew : ¬Tape.met nodes n.id) : ¬Tape.met nodes' n.id := by
  rw [met_iff_mem (h.mem_graph hG fun _ => G.operands_mem hn) hn]
  rw [met_iff_mem hG hn] at hnew
  intro hmem
  rcases h.reached n hmem with hmem | ⟨x, hx, hmem⟩
  · exact hnew hmem
  · exact Node.not_reaches_of_mem_operands hx hmem

theorem foldl_postorder_of_foldlM :
    ∀ (ns : List (Node K)), (∀ n ∈ ns, ∀ {o o' : Order K}, (∀ m ∈ o.nodes, m ∈ G) →
        visit name openEnded o n = .ok o' → o'.nodes = postorder o.nodes n) →
      (∀ n ∈ ns, n ∈ G) → ∀ {o o' : Order K}, (∀ m ∈ o.nodes, m ∈ G) →
        ns.foldlM (visit name openEnded) o = .ok o' → o'.nodes = ns.foldl postorder o.nodes
  | [], _, _, o, o', _, h => by
    cases h
    rfl
  | n :: ns, hvisit, hns, o, o', hG, h => by
    rw [List.foldlM_cons] at h
    cases hn : visit name openEnded o n with
    | error e => rw [hn] at h; cases h
    | ok mid =>
      rw [hn] at h
      have hmid : ∀ m ∈ mid.nodes, m ∈ G := fun m hm =>
        ((visited_of_visit n hn).reached m hm).elim (hG m)
          (Graph.mem_of_reaches (hns n List.mem_cons_self))
      have := foldl_postorder_of_foldlM ns (fun m hm => hvisit m (List.mem_cons_of_mem _ hm))
        (fun m hm => hns m (List.mem_cons_of_mem _ hm)) hmid h
      rw [this, List.foldl_cons, hvisit n List.mem_cons_self hG hn]

/-- In a graph, a walk lists what the recursion lists, in the same order. -/
theorem postorder_of_visit (n : Node K) :
    n ∈ G → ∀ {o o' : Order K}, (∀ m ∈ o.nodes, m ∈ G) →
      visit name openEnded o n = .ok o' → o'.nodes = postorder o.nodes n := by
  induction n using Node.operands_induction with
  | h n ih =>
    intro hn o o' hG h
    rw [visit_eq, Order.met_eq] at h
    rw [postorder_eq]
    split_ifs at h ⊢ with hm
    · cases h
      rfl
    · cases hops : n.operands.foldlM (visit name openEnded) o with
      | error e => rw [hops] at h; cases h
      | ok mid =>
        rw [hops] at h
        have hv := visitedAll_of_foldlM n.operands (fun x _ => visited_of_visit x) hops
        have hmid := foldl_postorder_of_foldlM n.operands
          (fun x hx => ih x hx (G.operands_mem hn hx)) (fun _ => G.operands_mem hn) hG hops
        rcases leave_ok h with ⟨hmet, -⟩ | ⟨-, -, hnodes⟩
        · exact absurd hmet (hv.not_met hG hn hm)
        · rw [hnodes, hmid]

/-! ## When a graph cannot be frozen -/

/-- The symbol is reached from an output, and is no input. -/
def Free (inputs outputs : List (SparseMatrix K)) (s : Node K) : Prop :=
  s.isSymbol ∧ s ∉ nonzerosOf inputs ∧ ∃ r ∈ nonzerosOf outputs, r.Reaches s

theorem leave_error {o : Order K} {n : Node K} {e : Error}
    (h : leave name openEnded o n = .error e) :
    ∃ x, n.name? = some x ∧ e = .inconsistent (.freeSymbol name x) := by
  unfold leave at h
  split_ifs at h
  split at h
  · next s hs =>
    cases h
    exact ⟨s, hs, rfl⟩
  · cases h

/-- The error of a walk names a symbol that the walk came to and that is not on the list. -/
def Blames (name : String) (nodes : List (Node K)) (n : Node K) (e : Error) : Prop :=
  ∃ s x, n.Reaches s ∧ ¬met nodes s.id ∧ s.name? = some x ∧
    e = .inconsistent (.freeSymbol name x)

theorem foldlM_visit_error :
    ∀ (ns : List (Node K)), (∀ n ∈ ns, ∀ {o : Order K} {e : Error},
        visit name openEnded o n = .error e → Blames name o.nodes n e) →
      ∀ {o : Order K} {e : Error}, ns.foldlM (visit name openEnded) o = .error e →
        ∃ n ∈ ns, Blames name o.nodes n e
  | [], _, o, e, h => by cases h
  | n :: ns, hvisit, o, e, h => by
    rw [List.foldlM_cons] at h
    cases hn : visit name openEnded o n with
    | error e' =>
      rw [hn] at h
      cases h
      exact ⟨n, List.mem_cons_self, hvisit n List.mem_cons_self hn⟩
    | ok mid =>
      rw [hn] at h
      obtain ⟨m, hm, s, x, hs, hmet, hx, he⟩ :=
        foldlM_visit_error ns (fun m hm => hvisit m (List.mem_cons_of_mem _ hm)) h
      have hle := (visited_of_visit n hn).appends.le
      exact ⟨m, List.mem_cons_of_mem _ hm, s, x, hs, fun h => hmet (met_mono hle h), hx, he⟩

theorem visit_error (n : Node K) :
    ∀ {o : Order K} {e : Error}, visit name openEnded o n = .error e →
      Blames name o.nodes n e := by
  induction n using Node.operands_induction with
  | h n ih =>
    intro o e h
    rw [visit_eq, Order.met_eq] at h
    split_ifs at h with hm
    cases hops : n.operands.foldlM (visit name openEnded) o with
    | error e' =>
      rw [hops] at h
      cases h
      obtain ⟨x, hx, s, y, hs, hmet, hy, he⟩ := foldlM_visit_error n.operands ih hops
      exact ⟨s, y, .head hx hs, hmet, hy, he⟩
    | ok mid =>
      rw [hops] at h
      obtain ⟨y, hy, he⟩ := leave_error h
      exact ⟨n, y, .refl n, hm, hy, he⟩

/-- Distinct symbols can be entered. -/
theorem foldlM_enter_of_nodup [Numeral K] (name : String) :
    ∀ (places : List (Nat × Nat × Node K)) (o : Order K),
      (∀ p ∈ places, p.2.2.isSymbol) → ((o.nodes ++ places.map (·.2.2)).map Node.id).Nodup →
      ∃ o', places.foldlM (enter name) o = .ok o' ∧ o'.nodes = o.nodes ++ places.map (·.2.2)
  | [], o, _, _ => ⟨o, rfl, by simp⟩
  | (i, k, n) :: places, o, hs, hd => by
    have hsym : n.isSymbol := hs _ List.mem_cons_self
    have hnew : ¬o.met n.id := by
      rw [Order.met_eq]
      rw [List.map_append, List.nodup_append] at hd
      intro hm
      obtain ⟨m, hm, hid⟩ := met_iff.1 hm
      exact hd.2.2 m.id (List.mem_map_of_mem hm) n.id (by simp) hid
    have henter : enter name o (i, k, n) = .ok (o.push n hnew) := by
      simp [enter, hsym, hnew]
    have hnodes : (o.push n hnew).nodes = o.nodes ++ [n] := rfl
    obtain ⟨o', ho', hentered⟩ := foldlM_enter_of_nodup name places (o.push n hnew)
      (fun p hp => hs p (List.mem_cons_of_mem _ hp)) (by simpa [hnodes] using hd)
    refine ⟨o', ?_, by simp [hentered, hnodes]⟩
    rw [List.foldlM_cons, henter]
    exact ho'

/-- From distinct symbols, the walks begin. -/
theorem layOut_eq_of_nodup [Numeral K] (openEnded : Bool) (name : String)
    (outputs : List (SparseMatrix K)) (hs : ∀ n ∈ nonzerosOf inputs, n.isSymbol)
    (hd : ((nonzerosOf inputs).map Node.id).Nodup) :
    ∃ o : Order K, o.nodes = nonzerosOf inputs ∧
      layOut openEnded name inputs outputs = (do
        let o' ← (nonzerosOf outputs).foldlM (visit name openEnded) o
        return { o' with name, inputs, outputs }) := by
  obtain ⟨o, henter, hnodes⟩ := foldlM_enter_of_nodup name (numbered inputs) Order.empty
    (fun p hp => hs _ (by rw [nonzerosOf, ← map_numbered]; exact List.mem_map_of_mem hp))
    (by rw [map_numbered]; exact hd)
  refine ⟨o, by rw [hnodes, map_numbered]; rfl, ?_⟩
  rw [layOut, henter]
  rfl

/-- From distinct symbols, a graph is laid out, or there is a free symbol, which the error names. -/
theorem layOut_of_nodup [Numeral K] (name : String) (outputs : List (SparseMatrix K))
    (hs : ∀ n ∈ nonzerosOf inputs, n.isSymbol) (hd : ((nonzerosOf inputs).map Node.id).Nodup) :
    (∃ t, layOut openEnded name inputs outputs = .ok t) ∨
      ∃ s x, Free inputs outputs s ∧ s.name? = some x ∧
        layOut openEnded name inputs outputs = .error (.inconsistent (.freeSymbol name x)) := by
  obtain ⟨o, hnodes, hlay⟩ := layOut_eq_of_nodup openEnded name outputs hs hd
  rw [hlay]
  cases hv : (nonzerosOf outputs).foldlM (visit name openEnded) o with
  | ok o' => exact Or.inl ⟨_, rfl⟩
  | error e =>
    obtain ⟨r, hr, s, x, hrs, hmet, hx, rfl⟩ :=
      foldlM_visit_error _ (fun n _ => visit_error n) hv
    refine Or.inr ⟨s, x, ⟨Node.isSymbol_iff.2 ⟨x, hx⟩, fun hmem => ?_, r, hr, hrs⟩, hx, rfl⟩
    rw [hnodes] at hmet
    exact hmet (met_iff.2 ⟨s, hmem, rfl⟩)

/-- Where further symbols are allowed, no walk fails. -/
theorem foldlM_visit_openEnded :
    ∀ (ns : List (Node K)), (∀ n ∈ ns, ∀ o : Order K, ∃ o', visit name true o n = .ok o') →
      ∀ o : Order K, ∃ o', ns.foldlM (visit name true) o = .ok o'
  | [], _, o => ⟨o, rfl⟩
  | n :: ns, h, o => by
    obtain ⟨mid, hmid⟩ := h n List.mem_cons_self o
    rw [List.foldlM_cons, hmid]
    exact foldlM_visit_openEnded ns (fun m hm => h m (List.mem_cons_of_mem _ hm)) mid

theorem visit_openEnded (n : Node K) : ∀ o : Order K, ∃ o', visit name true o n = .ok o' := by
  induction n using Node.operands_induction with
  | h n ih =>
    intro o
    obtain ⟨mid, hmid⟩ := foldlM_visit_openEnded n.operands ih o
    rw [visit_eq, hmid]
    change ∃ o', (if o.met n.id then .ok o else leave name true mid n) = .ok o'
    unfold leave
    split_ifs
    · exact ⟨_, rfl⟩
    · exact ⟨_, rfl⟩
    · exact ⟨_, rfl⟩

/-- Where further symbols are allowed, nothing is asked for but distinct symbols. -/
theorem freezeOpen_ok [Numeral K] (name : String) (outputs : List (SparseMatrix K))
    (hs : ∀ n ∈ nonzerosOf inputs, n.isSymbol) (hd : ((nonzerosOf inputs).map Node.id).Nodup) :
    ∃ t, freezeOpen name inputs outputs = .ok t := by
  obtain ⟨o, -, hlay⟩ := layOut_eq_of_nodup true name outputs hs hd
  obtain ⟨o', ho'⟩ := foldlM_visit_openEnded (nonzerosOf outputs) (fun n _ => visit_openEnded n) o
  rw [freezeOpen, hlay, ho']
  exact ⟨_, rfl⟩

/-! ## The nodes of a tape -/

/-- The tape lists the inputs and what the outputs reach, and finds every node of the graph in its
place. -/
structure Lists (G : Graph K) (t : Tape K) : Prop where
  nodup : t.nodes.Nodup
  inputs_first : nonzerosOf t.inputs <+: t.nodes
  mem_iff : ∀ n, n ∈ t.nodes ↔
    n ∈ nonzerosOf t.inputs ∨ ∃ r ∈ nonzerosOf t.outputs, r.Reaches n
  operands_before : ∀ (i : Nat) (n : Node K), t.nodes[i]? = some n →
    ∀ x ∈ n.operands, ∃ j < i, t.nodes[j]? = some x
  nodes_eq : t.nodes = (nonzerosOf t.outputs).foldl postorder (nonzerosOf t.inputs)
  index?_eq_some : ∀ n ∈ G, ∀ i, t.index? n = some i ↔ t.nodes[i]? = some n

/-- The index is the inverse of the list. -/
theorem index?_eq_some_iff (hG : ∀ n ∈ t.nodes, n ∈ G) {n : Node K} (hn : n ∈ G) (i : Nat) :
    t.index? n = some i ↔ t.nodes[i]? = some n := by
  rw [index?, t.inverse, List.getElem?_map, Option.map_eq_some_iff]
  constructor
  · rintro ⟨m, hm, hid⟩
    rw [hm, G.eq_of_id (hG m (List.mem_of_getElem? hm)) hn hid]
  · exact fun hget => ⟨n, hget, rfl⟩

namespace Layout

/-- What the outputs reach is on the tape. -/
theorem mem_of_reaches (h : t.Layout openEnded) (hG : ∀ n ∈ t.nodes, n ∈ G) {r n : Node K}
    (hr : r ∈ G) (hmem : r ∈ nonzerosOf t.outputs) (hn : r.Reaches n) : n ∈ t.nodes := by
  refine hn.inherits (P := (· ∈ t.nodes)) (fun m hm x hx => ?_)
    ((met_iff_mem hG hr).1 (h.outputs r hmem))
  obtain ⟨i, hi⟩ := List.mem_iff_getElem?.1 hm
  exact List.mem_of_getElem? (h.getElem?_operand_of_graph hG hi hx).2

/-- Without further symbols, no symbol is free. -/
theorem not_free (h : t.Layout false) (hG : ∀ n ∈ t.nodes, n ∈ G)
    (hout : ∀ n ∈ nonzerosOf t.outputs, n ∈ G) (s : Node K) : ¬Free t.inputs t.outputs s := by
  rintro ⟨hs, hin, r, hr, hrs⟩
  have hmem := h.mem_of_reaches hG (hout r hr) hr hrs
  rw [← List.take_append_drop t.width t.nodes, h.take_width, List.mem_append] at hmem
  exact absurd (h.rest s (hmem.resolve_left hin) hs).1 (by simp)

end Layout

/-- Every graph that is laid out is listed exactly. -/
theorem lists_of_layOut [Numeral K] (h : layOut openEnded name inputs outputs = .ok t)
    (hin : ∀ n ∈ nonzerosOf inputs, n ∈ G) (hout : ∀ n ∈ nonzerosOf outputs, n ∈ G) :
    t.Lists G := by
  have hlay := layout_of_layOut h
  obtain ⟨-, rfl, rfl, ⟨o, ho, hwalk⟩, -⟩ := layOut_ok h
  have hG := hlay.mem_graph hin hout
  have hprefix : nonzerosOf t.inputs <+: t.nodes := hlay.take_width ▸ List.take_prefix _ _
  refine ⟨hlay.nodup.of_map _, hprefix, fun n => ⟨hlay.reached n, ?_⟩, fun i n hi x hx => ?_, ?_,
    fun n hn i => index?_eq_some_iff hG hn i⟩
  · rintro (hn | ⟨r, hr, hn⟩)
    · exact hprefix.subset hn
    · exact hlay.mem_of_reaches hG (hout r hr) hr hn
  · obtain ⟨hlt, hget⟩ := hlay.getElem?_operand_of_graph hG hi hx
    exact ⟨_, hlt, hget⟩
  · rw [← ho]
    exact foldl_postorder_of_foldlM _ (fun n hn => postorder_of_visit n (hout n hn)) hout
      (ho ▸ hin) hwalk

/-- Freezing is exact. A graph can be frozen exactly if the input nonzeros are symbols, all of them
different, and no other symbol is reached from an output. The tape then lists the inputs and what
the outputs reach, in the order of a depth-first search. If there is nothing wrong but a free
symbol, the error is an inconsistency. -/
theorem freeze_exact [Numeral K] (G : Graph K) (name : String)
    {inputs outputs : List (SparseMatrix K)} (hin : ∀ n ∈ nonzerosOf inputs, n ∈ G)
    (hout : ∀ n ∈ nonzerosOf outputs, n ∈ G) :
    ((∃ t, freeze name inputs outputs = .ok t) ↔
      (∀ n ∈ nonzerosOf inputs, n.isSymbol) ∧ (nonzerosOf inputs).Nodup ∧
        ∀ s, ¬Free inputs outputs s) ∧
    (∀ t, freeze name inputs outputs = .ok t →
      t.name = name ∧ t.inputs = inputs ∧ t.outputs = outputs ∧ t.Lists G) ∧
    ((∀ n ∈ nonzerosOf inputs, n.isSymbol) → (nonzerosOf inputs).Nodup →
      (∃ s, Free inputs outputs s) →
        ∃ e, freeze name inputs outputs = .error e ∧ e.isInconsistency) := by
  have hfree : ∀ t, freeze name inputs outputs = .ok t → ∀ s, ¬Free inputs outputs s := by
    intro t h
    have hlay := layout_of_layOut h
    obtain ⟨-, rfl, rfl, -⟩ := layOut_ok h
    exact hlay.not_free (hlay.mem_graph hin hout) hout
  refine ⟨⟨?_, ?_⟩, ?_, ?_⟩
  · rintro ⟨t, h⟩
    obtain ⟨-, -, -, -, hs, hd⟩ := layOut_ok h
    exact ⟨hs, hd.of_map _, hfree t h⟩
  · rintro ⟨hs, hd, hnone⟩
    rcases layOut_of_nodup name outputs hs ((Graph.nodup_map_id hin).2 hd) with h | ⟨s, x, hs, -⟩
    · exact h
    · exact absurd hs (hnone s)
  · intro t h
    obtain ⟨hname, hi, ho, -⟩ := layOut_ok h
    exact ⟨hname, hi, ho, lists_of_layOut h hin hout⟩
  · rintro hs hd ⟨s, hsfree⟩
    rcases layOut_of_nodup name outputs hs ((Graph.nodup_map_id hin).2 hd) with
      ⟨t, h⟩ | ⟨-, x, -, -, h⟩
    · exact absurd hsfree (hfree t h s)
    · exact ⟨_, h, rfl⟩

/-! ## A diamond

A product, its sine, and the sum of both. The sine is an output beside the sum, and so is an
input. -/

namespace Diamond

def x : Node Float := .symbol 1 "x"
def y : Node Float := .symbol 2 "y"
def product : Node Float := .binary 3 .mul x y
def sine : Node Float := .unary 4 .sin product
def sum : Node Float := .binary 5 .add sine product

def tape : Tape Float where
  name := "diamond"
  inputs := [.scalar x, .scalar y]
  outputs := [.scalar sum, .scalar x, .scalar sine]
  toOrder := .ofNodes [x, y, product, sine, sum] (by decide)

def graph : Graph Float :=
  .ofList tape.nodes (by simp [tape, sum, sine, product, x, y, Node.operands]) (by decide)

theorem inputs_mem : ∀ n ∈ nonzerosOf tape.inputs, n ∈ graph := fun _ hn =>
  List.take_subset 2 tape.nodes hn

theorem outputs_mem : ∀ n ∈ nonzerosOf tape.outputs, n ∈ graph := by
  intro n hn
  change n ∈ [sum, x, sine] at hn
  change n ∈ [x, y, product, sine, sum]
  simp only [List.mem_cons] at hn ⊢
  tauto

theorem freeze_eq : freeze "diamond" tape.inputs tape.outputs = .ok tape := by
  rfl

end Diamond

/-- The diamond can be frozen; with its first input alone, the second one is a free symbol. -/
theorem freeze_exact_diamond :
    (∀ n ∈ nonzerosOf Diamond.tape.inputs, n ∈ Diamond.graph) ∧
      (∀ n ∈ nonzerosOf Diamond.tape.outputs, n ∈ Diamond.graph) ∧
      freeze "diamond" Diamond.tape.inputs Diamond.tape.outputs = .ok Diamond.tape ∧
      Diamond.tape.Lists Diamond.graph ∧
      ∃ e, freeze "diamond" (Diamond.tape.inputs.take 1) Diamond.tape.outputs = .error e ∧
        e.isInconsistency := by
  have hfree : Free (Diamond.tape.inputs.take 1) Diamond.tape.outputs Diamond.y := by
    have hreach : Diamond.sum.Reaches Diamond.y := by
      refine .head (x := Diamond.product) (by simp [Diamond.sum, Node.operands]) ?_
      exact .head (by simp [Diamond.product, Node.operands]) (.refl _)
    refine ⟨rfl, ?_, Diamond.sum, List.mem_cons_self, hreach⟩
    change Diamond.y ∉ [Diamond.x]
    simp [Diamond.x, Diamond.y]
  have hexact := freeze_exact Diamond.graph "diamond" Diamond.inputs_mem Diamond.outputs_mem
  refine ⟨Diamond.inputs_mem, Diamond.outputs_mem, Diamond.freeze_eq,
    (hexact.2.1 _ Diamond.freeze_eq).2.2.2, ?_⟩
  refine (freeze_exact Diamond.graph "diamond" (fun n hn => Diamond.inputs_mem n ?_)
    Diamond.outputs_mem).2.2 ?_ ?_ ⟨_, hfree⟩
  · exact List.take_subset 1 (nonzerosOf Diamond.tape.inputs) hn
  · exact fun n hn => List.mem_singleton.1 hn ▸ rfl
  · exact List.nodup_singleton _

end Tangent.Tape
