import Mathlib
import Tangent.Proofs.Graph
import Tangent.Tape.Basic

/-!
# The order of a tape

A tape that `Tape.layOut` gives starts with the nonzeros of its inputs, which are distinct symbols,
and every node of it stands after its operands (`Ordered`). Nothing is assumed about the numbers of
the nodes : a node is looked up by its number in the index, which is the inverse of the list
(`Order.met_eq`, `position_eq`), and the walk through the graph puts a node with the number of each
operand in front. `Tape.Layout` collects what the rest of the theory uses, and
`layout_of_layOut` says that every laid out tape has it.
-/

namespace Tangent

variable {K : Type}

/-- There is one node for each structural nonzero. -/
def SparseMatrix.Filled (m : SparseMatrix K) : Prop :=
  m.nnz = m.pattern.nnz

theorem SparseMatrix.filled_scalar (n : Node K) : (SparseMatrix.scalar n).Filled := by
  rfl

namespace Tape

/-- A node with the number is in the list. -/
def met (nodes : List (Node K)) (id : Nat) : Bool :=
  nodes.any (·.id == id)

theorem met_iff {nodes : List (Node K)} {i : Nat} :
    met nodes i ↔ ∃ n ∈ nodes, n.id = i := by
  simp [met]

theorem met_mono {nodes nodes' : List (Node K)} (h : nodes <+: nodes') {i : Nat}
    (hi : met nodes i) : met nodes' i := by
  obtain ⟨n, hn, rfl⟩ := met_iff.1 hi
  exact met_iff.2 ⟨n, h.subset hn, rfl⟩

theorem met_iff_getElem? {nodes : List (Node K)} {i : Nat} :
    met nodes i ↔ ∃ j : Nat, (nodes.map Node.id)[j]? = some i := by
  rw [met_iff, ← List.mem_iff_getElem?, List.mem_map]

end Tape

/-! ## Lists with an index -/

namespace Order

open Tape (met_iff_getElem?)

variable (o : Order K)

/-- What is looked up in the index is in the list. -/
theorem met_eq (i : Nat) : o.met i = Tape.met o.nodes i := by
  rw [Bool.eq_iff_iff, met_iff_getElem?, Order.met, Option.isSome_iff_exists]
  exact exists_congr fun j => o.inverse i j

/-- No number occurs twice. -/
theorem nodup : (o.nodes.map Node.id).Nodup := by
  refine List.nodup_iff_injective_get.2 fun i j hij => ?_
  have hlookup (k : Fin (o.nodes.map Node.id).length) :
      o.index.lookup ((o.nodes.map Node.id).get k) = some k.val :=
    (o.inverse _ _).2 (List.getElem?_eq_getElem k.isLt)
  have hi := hlookup i
  rw [hij, hlookup j, Option.some.injEq] at hi
  exact Fin.ext hi.symm

/-- The positions of the nodes of a list, the last one first. -/
def indexOf (nodes : List (Node K)) : List (Nat × Nat) :=
  (nodes.zipIdx.map fun (n, i) => (n.id, i)).reverse

theorem indexOf_snoc (nodes : List (Node K)) (n : Node K) :
    indexOf (nodes ++ [n]) = (n.id, nodes.length) :: indexOf nodes := by
  simp [indexOf, List.zipIdx_append]

theorem inverse_indexOf {nodes : List (Node K)} (h : (nodes.map Node.id).Nodup) (id i : Nat) :
    (indexOf nodes).lookup id = some i ↔ (nodes.map Node.id)[i]? = some id := by
  induction nodes using List.reverseRecOn generalizing id i with
  | nil => simp [indexOf]
  | append_singleton nodes n ih =>
    rw [List.map_append, List.map_singleton, List.nodup_append] at h
    obtain ⟨hnodup, -, hdisjoint⟩ := h
    have hnew : (indexOf nodes).lookup n.id = none := by
      refine Option.eq_none_iff_forall_ne_some.2 fun j hj => ?_
      have hmem := List.mem_of_getElem? ((ih hnodup n.id j).1 hj)
      exact hdisjoint n.id hmem n.id (List.mem_singleton_self _) rfl
    have hsnoc := inverse_snoc (ih hnodup) hnew id i
    rwa [List.length_map, ← indexOf_snoc, ← List.map_singleton, ← List.map_append] at hsnoc

/-- A list of nodes whose numbers are distinct, with its index. -/
def ofNodes (nodes : List (Node K)) (h : (nodes.map Node.id).Nodup) : Order K where
  nodes := nodes
  index := indexOf nodes
  inverse := inverse_indexOf h

@[simp]
theorem nodes_ofNodes {nodes : List (Node K)} (h : (nodes.map Node.id).Nodup) :
    (ofNodes nodes h).nodes = nodes :=
  rfl

end Order

namespace Tape

/-- Every node stands after nodes with the numbers of its operands. -/
inductive Ordered : List (Node K) → Prop
  | nil : Ordered []
  | snoc {nodes : List (Node K)} {n : Node K} : Ordered nodes →
      (∀ x ∈ n.operands, met nodes x.id) → Ordered (nodes ++ [n])

/-- A node with the number of an operand stands before the node. -/
theorem Ordered.exists_lt {nodes : List (Node K)} (h : Ordered nodes) {i : Nat} {n x : Node K}
    (hn : nodes[i]? = some n) (hx : x ∈ n.operands) :
    ∃ j < i, (nodes.map Node.id)[j]? = some x.id := by
  induction h with
  | nil => simp at hn
  | @snoc nodes m _ hm ih =>
    rw [List.map_append]
    rcases Nat.lt_or_ge i nodes.length with hi | hi
    · rw [List.getElem?_append_left hi] at hn
      obtain ⟨j, hj, hid⟩ := ih hn
      exact ⟨j, hj, by rw [List.getElem?_append_left (by rw [List.length_map]; omega), hid]⟩
    · obtain ⟨hlt, hget⟩ := List.getElem?_eq_some_iff.1 hn
      obtain rfl : i = nodes.length := by simp at hlt; omega
      obtain rfl : m = n := by simpa using hget
      obtain ⟨j, hid⟩ := met_iff_getElem?.1 (hm x hx)
      have hj := (List.getElem?_eq_some_iff.1 hid).1
      exact ⟨j, by simpa using hj, by rw [List.getElem?_append_left hj, hid]⟩

/-- The index gives the position of a number in the list. -/
theorem position_eq {t : Tape K} {x : Node K} {i : Nat}
    (h : (t.nodes.map Node.id)[i]? = some x.id) : t.position x = i := by
  rw [position, index?, (t.inverse x.id i).2 h, Option.getD_some]

theorem getElem?_position_of_met {t : Tape K} {x : Node K} (h : met t.nodes x.id) :
    ∃ n, t.nodes[t.position x]? = some n ∧ n.id = x.id := by
  obtain ⟨i, hi⟩ := met_iff_getElem?.1 h
  rw [position_eq hi]
  rwa [List.getElem?_map, Option.map_eq_some_iff] at hi

theorem position_lt_of_met {t : Tape K} {x : Node K} (h : met t.nodes x.id) :
    t.position x < t.nodes.length := by
  obtain ⟨n, hn, -⟩ := getElem?_position_of_met h
  exact (List.getElem?_eq_some_iff.1 hn).1

/-! ## Entering the inputs -/

/-- Entered nonzeros are symbols with new numbers, and stand at the end in their order. -/
theorem enter_ok [Numeral K] {name : String} {o o' : Order K} {i k : Nat} {n : Node K}
    (h : enter name o (i, k, n) = .ok o') : n.isSymbol ∧ o'.nodes = o.nodes ++ [n] := by
  simp only [enter] at h
  split_ifs at h with hs hm
  · cases h
  · cases h
  · cases h
    exact ⟨by simpa using hs, rfl⟩

theorem foldlM_enter_ok [Numeral K] {name : String} :
    ∀ (places : List (Nat × Nat × Node K)) {o o' : Order K},
      places.foldlM (enter name) o = .ok o' →
      o'.nodes = o.nodes ++ places.map (·.2.2) ∧ ∀ p ∈ places, p.2.2.isSymbol
  | [], o, o', h => by
    cases h
    simp
  | (i, k, n) :: places, o, o', h => by
    rw [List.foldlM_cons] at h
    cases he : enter name o (i, k, n) with
    | error e => rw [he] at h; cases h
    | ok entered =>
      rw [he] at h
      obtain ⟨hs, hentered⟩ := enter_ok he
      obtain ⟨hnodes, hss⟩ := foldlM_enter_ok places h
      refine ⟨by simp [hnodes, hentered], ?_⟩
      rintro p hp
      rcases List.mem_cons.1 hp with rfl | hp
      · exact hs
      · exact hss p hp

theorem map_numbered (matrices : List (SparseMatrix K)) :
    (numbered matrices).map (·.2.2) = matrices.flatMap (·.nonzeros) := by
  have row : ∀ (i : Nat) (ns : List (Node K)) (k : Nat),
      (ns.zipIdx k).map (fun p : Node K × Nat => ((i, p.2, p.1) : Nat × Nat × Node K).2.2) =
        ns := by
    intro i ns k
    simp
  have all : ∀ (ms : List (SparseMatrix K)) (k : Nat),
      ((ms.zipIdx k).flatMap fun p => p.1.nonzeros.zipIdx.map fun q =>
        ((p.2, q.2, q.1) : Nat × Nat × Node K).2.2) = ms.flatMap (·.nonzeros) := by
    intro ms
    induction ms with
    | nil => intro k; rfl
    | cons m ms ih =>
      intro k
      rw [List.zipIdx_cons, List.flatMap_cons, List.flatMap_cons, ih, row]
  simpa [numbered, List.map_flatMap, Function.comp_def] using all matrices 0

/-! ## Walking through the graph -/

section Walk

variable {name : String} {openEnded : Bool}

/-- A walk from some frames on a stack is a walk from these, and then from the stack. -/
theorem walk_append (frames stack : List (Frame K)) (o : Order K) :
    walk name openEnded (frames ++ stack) o =
      (walk name openEnded frames o).bind (walk name openEnded stack) := by
  fun_induction walk name openEnded frames o with
  | case1 o => rfl
  | case2 n x pending frames o hx ih =>
    rw [List.cons_append, walk, if_pos hx]
    exact ih
  | case3 n x pending frames o hx ih =>
    rw [List.cons_append, walk, if_neg hx]
    exact ih
  | case4 n frames o ih =>
    rw [List.cons_append, walk]
    cases hn : leave name openEnded o n with
    | error e => rfl
    | ok o' => exact ih o'

/-- A walk from one frame visits the pending operands, from left to right, and leaves the node. -/
theorem walk_frame (n : Node K) :
    ∀ (pending : List (Node K)) (o : Order K), walk name openEnded [⟨n, pending⟩] o =
      (pending.foldlM (visit name openEnded) o).bind (leave name openEnded · n)
  | [], o => by
    rw [walk, List.foldlM_nil]
    cases hn : leave name openEnded o n with
    | error e => simp [bind, Except.bind, pure, Except.pure, hn]
    | ok o' => simp [bind, Except.bind, pure, Except.pure, hn, walk]
  | x :: pending, o => by
    rw [walk, List.foldlM_cons, visit]
    split_ifs with hx
    · exact walk_frame n pending o
    · rw [← List.singleton_append, walk_append]
      cases hw : walk name openEnded [.of x] o with
      | error e => rfl
      | ok mid => exact walk_frame n pending mid

/-- To visit a node is to visit its operands, from left to right, and then to leave it. -/
theorem visit_eq (o : Order K) (n : Node K) :
    visit name openEnded o n = if o.met n.id then .ok o else
      (n.operands.foldlM (visit name openEnded) o).bind (leave name openEnded · n) := by
  rw [visit, Frame.of, walk_frame]

/-- A node that is left is on the list, or is appended to it; without further symbols, symbols are
not appended. -/
theorem leave_ok {o o' : Order K} {n : Node K} (h : leave name openEnded o n = .ok o') :
    met o.nodes n.id ∧ o' = o ∨
      ¬met o.nodes n.id ∧ (n.isSymbol → openEnded) ∧ o'.nodes = o.nodes ++ [n] := by
  rw [← Order.met_eq]
  unfold leave at h
  split_ifs at h with hm
  · cases h
    exact Or.inl ⟨hm, rfl⟩
  · refine Or.inr ⟨hm, ?_⟩
    cases hs : n.name? with
    | none =>
      obtain rfl : o.push n hm = o' := by
        cases openEnded <;> simpa [hs] using h
      exact ⟨by simp [Node.isSymbol, hs], rfl⟩
    | some s =>
      rw [hs] at h
      cases openEnded with
      | false => cases h
      | true =>
        cases h
        exact ⟨fun _ => rfl, rfl⟩

end Walk

/-- The second list is the first and further nodes : these are no symbols, or further symbols are
allowed and their numbers are not on the first list. -/
def Appends (openEnded : Bool) (nodes nodes' : List (Node K)) : Prop :=
  ∃ new, nodes' = nodes ++ new ∧ ∀ m ∈ new, m.isSymbol → openEnded ∧ ¬met nodes m.id

namespace Appends

variable {openEnded : Bool} {nodes mid nodes' : List (Node K)}

theorem refl (nodes : List (Node K)) : Appends openEnded nodes nodes :=
  ⟨[], by simp⟩

theorem le (h : Appends openEnded nodes nodes') : nodes <+: nodes' := by
  obtain ⟨new, rfl, -⟩ := h
  exact List.prefix_append _ _

theorem trans (h : Appends openEnded nodes mid) (h' : Appends openEnded mid nodes') :
    Appends openEnded nodes nodes' := by
  obtain ⟨new, hmid, hnew⟩ := h
  obtain ⟨new', rfl, hnew'⟩ := h'
  refine ⟨new ++ new', by simp [hmid], fun m hm hs => ?_⟩
  rcases List.mem_append.1 hm with hm | hm
  · exact hnew m hm hs
  · obtain ⟨ho, hmet⟩ := hnew' m hm hs
    exact ⟨ho, fun hmet' => hmet (met_mono ⟨new, hmid.symm⟩ hmet')⟩

end Appends

/-- What a walk from a node does to the list : it appends nodes, operands first, and puts the
number of the node on it. -/
structure Visited (openEnded : Bool) (nodes : List (Node K)) (n : Node K)
    (nodes' : List (Node K)) : Prop where
  met : met nodes' n.id
  ordered : Ordered nodes → Ordered nodes'
  appends : Appends openEnded nodes nodes'
  reached : ∀ m ∈ nodes', m ∈ nodes ∨ n.Reaches m

namespace Visited

variable {openEnded : Bool} {nodes nodes' : List (Node K)} {n x y : Node K}

/-- A node whose number is on the list adds nothing. -/
theorem of_met (h : Tape.met nodes n.id) : Visited openEnded nodes n nodes where
  met := h
  ordered := id
  appends := .refl nodes
  reached _ := Or.inl

/-- A node is appended after its operands are. -/
theorem snoc (hm : ∀ x ∈ n.operands, Tape.met nodes x.id) (hs : n.isSymbol → openEnded)
    (hnew : ¬Tape.met nodes n.id) : Visited openEnded nodes n (nodes ++ [n]) where
  met := met_iff.2 ⟨n, by simp, rfl⟩
  ordered h := .snoc h hm
  appends := by
    refine ⟨[n], rfl, fun m hm hsym => ?_⟩
    obtain rfl := List.mem_singleton.1 hm
    exact ⟨hs hsym, hnew⟩
  reached m hm := by
    rcases List.mem_append.1 hm with hm | hm
    · exact Or.inl hm
    · exact Or.inr (List.mem_singleton.1 hm ▸ .refl n)

end Visited

/-- What the walks from several nodes, one after the other, do to the list. -/
structure VisitedAll (openEnded : Bool) (nodes ns nodes' : List (Node K)) : Prop where
  met : ∀ n ∈ ns, met nodes' n.id
  ordered : Ordered nodes → Ordered nodes'
  appends : Appends openEnded nodes nodes'
  reached : ∀ m ∈ nodes', m ∈ nodes ∨ ∃ n ∈ ns, n.Reaches m

/-- Walks from the operands followed by a walk that ends at the node. -/
theorem VisitedAll.trans {openEnded : Bool} {nodes mid nodes' : List (Node K)} {n : Node K}
    (h : VisitedAll openEnded nodes n.operands mid) (h' : Visited openEnded mid n nodes') :
    Visited openEnded nodes n nodes' where
  met := h'.met
  ordered := h'.ordered ∘ h.ordered
  appends := h.appends.trans h'.appends
  reached m hm := by
    rcases h'.reached m hm with hm | hm
    · exact (h.reached m hm).imp_right fun ⟨x, hx, hm⟩ => .head hx hm
    · exact Or.inr hm

theorem visitedAll_of_foldlM {name : String} {openEnded : Bool} :
    ∀ (ns : List (Node K)), (∀ n ∈ ns, ∀ {o o' : Order K},
        visit name openEnded o n = .ok o' → Visited openEnded o.nodes n o'.nodes) →
      ∀ {o o' : Order K}, ns.foldlM (visit name openEnded) o = .ok o' →
        VisitedAll openEnded o.nodes ns o'.nodes
  | [], _, o, o', h => by
    cases h
    exact ⟨by simp, id, .refl o.nodes, fun _ => Or.inl⟩
  | n :: ns, hvisit, o, o', h => by
    rw [List.foldlM_cons] at h
    cases hn : visit name openEnded o n with
    | error e => rw [hn] at h; cases h
    | ok mid =>
      rw [hn] at h
      have hv := hvisit n List.mem_cons_self hn
      have hvs := visitedAll_of_foldlM ns (fun m hm => hvisit m (List.mem_cons_of_mem _ hm)) h
      refine ⟨?_, hvs.ordered ∘ hv.ordered, hv.appends.trans hvs.appends, ?_⟩
      · intro m hm
        rcases List.mem_cons.1 hm with rfl | hm
        · exact met_mono hvs.appends.le hv.met
        · exact hvs.met m hm
      · intro m hm
        rcases hvs.reached m hm with hm | ⟨r, hr, hm⟩
        · exact (hv.reached m hm).imp_right fun hm => ⟨n, List.mem_cons_self, hm⟩
        · exact Or.inr ⟨r, List.mem_cons_of_mem _ hr, hm⟩

theorem visited_of_visit {name : String} {openEnded : Bool} (n : Node K) :
    ∀ {o o' : Order K}, visit name openEnded o n = .ok o' →
      Visited openEnded o.nodes n o'.nodes := by
  induction n using Node.operands_induction with
  | h n ih =>
    intro o o' h
    rw [visit_eq] at h
    split_ifs at h with hm
    · cases h
      exact .of_met (o.met_eq n.id ▸ hm)
    · cases hops : n.operands.foldlM (visit name openEnded) o with
      | error e => rw [hops] at h; cases h
      | ok mid =>
        rw [hops] at h
        have hv := visitedAll_of_foldlM n.operands ih hops
        rcases leave_ok h with ⟨hmet, rfl⟩ | ⟨hmet, hs, hnodes⟩
        · exact hv.trans (.of_met hmet)
        · exact hv.trans (hnodes ▸ .snoc hv.met hs hmet)

/-! ## Laid out tapes -/

/-- The nonzeros of some matrices, one matrix after the other. -/
def nonzerosOf (matrices : List (SparseMatrix K)) : List (Node K) :=
  matrices.flatMap (·.nonzeros)

theorem nonzerosOf_cons (m : SparseMatrix K) (matrices : List (SparseMatrix K)) :
    nonzerosOf (m :: matrices) = m.nonzeros ++ nonzerosOf matrices :=
  List.flatMap_cons

theorem length_nonzerosOf (matrices : List (SparseMatrix K)) :
    (nonzerosOf matrices).length = (matrices.map (·.nnz)).sum := by
  simp [nonzerosOf, List.length_flatMap, SparseMatrix.nnz]

theorem width_eq_sum (t : Tape K) : t.width = (t.inputs.map (·.nnz)).sum :=
  rfl

theorem width_eq (t : Tape K) : t.width = (nonzerosOf t.inputs).length :=
  (length_nonzerosOf t.inputs).symm

/-- The order that a tape has when it is laid out. -/
structure Layout (openEnded : Bool) (t : Tape K) : Prop where
  ordered : Ordered t.nodes
  /-- The input nonzeros come first. -/
  take_width : t.nodes.take t.width = nonzerosOf t.inputs
  symbols : ∀ n ∈ nonzerosOf t.inputs, n.isSymbol
  distinct : ((nonzerosOf t.inputs).map Node.id).Nodup
  /-- No number occurs twice. -/
  nodup : (t.nodes.map Node.id).Nodup
  /-- Only the inputs are symbols, unless further symbols are allowed : then those are no inputs. -/
  rest : ∀ n ∈ t.nodes.drop t.width, n.isSymbol → openEnded ∧ ¬met (nonzerosOf t.inputs) n.id
  outputs : ∀ n ∈ nonzerosOf t.outputs, met t.nodes n.id
  reached : ∀ n ∈ t.nodes, n ∈ nonzerosOf t.inputs ∨ ∃ r ∈ nonzerosOf t.outputs, r.Reaches n

theorem ordered_of_isSymbol (nodes : List (Node K)) (h : ∀ n ∈ nodes, n.isSymbol) :
    Ordered nodes := by
  induction nodes using List.reverseRecOn with
  | nil => exact .nil
  | append_singleton nodes n ih =>
    refine .snoc (ih fun m hm => h m (by simp [hm])) ?_
    have hn := h n (by simp)
    cases n <;> simp_all [Node.operands, Node.isSymbol, Node.name?]

/-- What a tape that is laid out is made of. -/
theorem layOut_ok [Numeral K] {openEnded : Bool} {name : String}
    {inputs outputs : List (SparseMatrix K)} {t : Tape K}
    (h : layOut openEnded name inputs outputs = .ok t) :
    t.name = name ∧ t.inputs = inputs ∧ t.outputs = outputs ∧
      (∃ o : Order K, o.nodes = nonzerosOf inputs ∧
        (nonzerosOf outputs).foldlM (visit name openEnded) o = .ok t.toOrder) ∧
      (∀ n ∈ nonzerosOf inputs, n.isSymbol) ∧ ((nonzerosOf inputs).map Node.id).Nodup := by
  unfold layOut at h
  cases he : (numbered inputs).foldlM (enter name) Order.empty with
  | error e => rw [he] at h; cases h
  | ok entered =>
    rw [he] at h
    obtain ⟨hentered, hs⟩ := foldlM_enter_ok _ he
    have hnodes : entered.nodes = nonzerosOf inputs := by
      rw [hentered, map_numbered]
      rfl
    cases hv : (outputs.flatMap (·.nonzeros)).foldlM (visit name openEnded) entered with
    | error e => simp only [bind, Except.bind] at h; rw [hv] at h; cases h
    | ok o =>
      simp only [bind, Except.bind] at h
      rw [hv] at h
      cases h
      refine ⟨rfl, rfl, rfl, ⟨entered, hnodes, hv⟩, fun n hn => ?_, hnodes ▸ entered.nodup⟩
      rw [nonzerosOf, ← map_numbered] at hn
      obtain ⟨p, hp, rfl⟩ := List.mem_map.1 hn
      exact hs p hp

/-- Every laid out tape starts with its inputs and has operands before what needs them. -/
theorem layout_of_layOut [Numeral K] {openEnded : Bool} {name : String}
    {inputs outputs : List (SparseMatrix K)} {t : Tape K}
    (h : layOut openEnded name inputs outputs = .ok t) : t.Layout openEnded := by
  obtain ⟨-, rfl, rfl, ⟨o, ho, hwalk⟩, hs, hd⟩ := layOut_ok h
  have hv := visitedAll_of_foldlM _ (fun m _ => visited_of_visit m) hwalk
  rw [ho] at hv
  obtain ⟨new, hnew, hrest⟩ := hv.appends
  refine ⟨hv.ordered (ordered_of_isSymbol _ hs), ?_, hs, hd, t.nodup, fun n hn => ?_,
    hv.met, hv.reached⟩
  · rw [width_eq, hnew, List.take_left]
  · rw [width_eq, hnew, List.drop_left] at hn
    exact hrest n hn

namespace Layout

variable {openEnded : Bool} {t : Tape K}

/-- What holds of the inputs and outputs and is passed on to operands holds of the whole tape. -/
theorem inherits (h : t.Layout openEnded) (P : Node K → Prop)
    (hP : ∀ m, P m → ∀ x ∈ m.operands, P x) (hin : ∀ n ∈ nonzerosOf t.inputs, P n)
    (hout : ∀ n ∈ nonzerosOf t.outputs, P n) : ∀ n ∈ t.nodes, P n := by
  intro n hn
  rcases h.reached n hn with hn | ⟨r, hr, hn⟩
  · exact hin n hn
  · exact hn.inherits hP (hout r hr)

theorem width_le (h : t.Layout openEnded) : t.width ≤ t.nodes.length := by
  have := congrArg List.length h.take_width
  rw [← width_eq, List.length_take] at this
  omega

theorem length_take_width (h : t.Layout openEnded) : (t.nodes.take t.width).length = t.width := by
  rw [List.length_take, Nat.min_eq_left h.width_le]

theorem position_operand_lt (h : t.Layout openEnded) {i : Nat} {n x : Node K}
    (hn : t.nodes[i]? = some n) (hx : x ∈ n.operands) : t.position x < i := by
  obtain ⟨j, hj, hid⟩ := h.ordered.exists_lt hn hx
  exact position_eq hid ▸ hj

theorem met_operand (h : t.Layout openEnded) {i : Nat} {n x : Node K}
    (hn : t.nodes[i]? = some n) (hx : x ∈ n.operands) : met t.nodes x.id := by
  obtain ⟨j, -, hid⟩ := h.ordered.exists_lt hn hx
  exact met_iff_getElem?.2 ⟨j, hid⟩

theorem position_output_lt (h : t.Layout openEnded) {n : Node K} (hn : n ∈ nonzerosOf t.outputs) :
    t.position n < t.nodes.length :=
  position_lt_of_met (h.outputs n hn)

/-- The input nonzeros stand at the first positions. -/
theorem getElem?_input (h : t.Layout openEnded) {i : Nat} (hi : i < t.width) :
    t.nodes[i]? = (nonzerosOf t.inputs)[i]? := by
  rw [← h.take_width, List.getElem?_take_of_lt hi]

theorem position_input (h : t.Layout openEnded) {i : Nat} {n : Node K}
    (hn : (nonzerosOf t.inputs)[i]? = some n) : t.position n = i := by
  have hi : i < t.width := width_eq t ▸ (List.getElem?_eq_some_iff.1 hn).1
  exact position_eq (by rw [List.getElem?_map, h.getElem?_input hi, hn, Option.map_some])

theorem position_input_lt (h : t.Layout openEnded) {n : Node K}
    (hn : n ∈ nonzerosOf t.inputs) : t.position n < t.nodes.length := by
  obtain ⟨i, hi⟩ := List.getElem?_of_mem hn
  rw [h.position_input hi]
  exact Nat.lt_of_lt_of_le (width_eq t ▸ (List.getElem?_eq_some_iff.1 hi).1) h.width_le

variable {G : Graph K}

theorem mem_graph (h : t.Layout openEnded) (hin : ∀ n ∈ nonzerosOf t.inputs, n ∈ G)
    (hout : ∀ n ∈ nonzerosOf t.outputs, n ∈ G) : ∀ n ∈ t.nodes, n ∈ G :=
  h.inherits (· ∈ G) (fun _ hn _ hx => G.operands_mem hn hx) hin hout

end Layout

/-- In a graph, a node stands at its position. -/
theorem getElem?_position_of_graph {t : Tape K} {G : Graph K} (hG : ∀ n ∈ t.nodes, n ∈ G)
    {x : Node K} (hx : x ∈ G) (h : met t.nodes x.id) : t.nodes[t.position x]? = some x := by
  obtain ⟨n, hn, hid⟩ := getElem?_position_of_met h
  rw [hn, G.eq_of_id (hG n (List.mem_of_getElem? hn)) hx hid]

/-- In a graph, the operands of a node stand before it. -/
theorem Layout.getElem?_operand_of_graph {openEnded : Bool} {t : Tape K} {G : Graph K}
    (h : t.Layout openEnded) (hG : ∀ n ∈ t.nodes, n ∈ G) {i : Nat} {n x : Node K}
    (hn : t.nodes[i]? = some n) (hx : x ∈ n.operands) :
    t.position x < i ∧ t.nodes[t.position x]? = some x :=
  ⟨h.position_operand_lt hn hx, getElem?_position_of_graph hG
    (G.operands_mem (hG n (List.mem_of_getElem? hn)) hx) (h.met_operand hn hx)⟩

/-! ## The places of nonzeros -/

theorem flatten_results (t : Tape K) :
    t.results.flatten = (nonzerosOf t.outputs).map t.position := by
  rw [results, nonzerosOf, List.map_flatMap, List.flatMap]

theorem getElem?_zipIdx_flatMap :
    ∀ (matrices : List (SparseMatrix K)) (o : Nat) {p i k : Nat} {n : Node K},
      ((matrices.zipIdx o).flatMap fun (m, i) =>
        m.nonzeros.zipIdx.map fun (n, k) => (i, k, n))[p]? = some (i, k, n) →
      ∃ m j, i = o + j ∧ matrices[j]? = some m ∧ m.nonzeros[k]? = some n ∧
        p = ((matrices.take j).map (·.nnz)).sum + k
  | [], o, p, i, k, n, h => by simp at h
  | m :: matrices, o, p, i, k, n, h => by
    rw [List.zipIdx_cons, List.flatMap_cons] at h
    rcases Nat.lt_or_ge p m.nonzeros.length with hp | hp
    · rw [List.getElem?_append_left (by simpa using hp)] at h
      simp only [List.getElem?_map, List.getElem?_zipIdx, Option.map_eq_some_iff] at h
      obtain ⟨⟨n', k'⟩, ⟨n'', hn, hk⟩, he⟩ := h
      simp only [Prod.mk.injEq, Nat.zero_add] at hk he
      obtain ⟨rfl, rfl⟩ := hk
      obtain ⟨rfl, rfl, rfl⟩ := he
      exact ⟨m, 0, rfl, rfl, hn, by simp⟩
    · rw [List.getElem?_append_right (by simpa using hp)] at h
      obtain ⟨m', j, rfl, hm, hn, he⟩ := getElem?_zipIdx_flatMap matrices (o + 1) h
      refine ⟨m', j + 1, by omega, hm, hn, ?_⟩
      simp only [List.length_map, List.length_zipIdx] at he
      simp only [List.take_succ_cons, List.map_cons, List.sum_cons, SparseMatrix.nnz] at he ⊢
      omega

/-- Where a numbered nonzero stands among all nonzeros. -/
theorem getElem?_numbered {matrices : List (SparseMatrix K)} {p i k : Nat} {n : Node K}
    (h : (numbered matrices)[p]? = some (i, k, n)) :
    ∃ m, matrices[i]? = some m ∧ m.nonzeros[k]? = some n ∧
      p = ((matrices.take i).map (·.nnz)).sum + k := by
  obtain ⟨m, j, rfl, hm, hn, hp⟩ := getElem?_zipIdx_flatMap matrices 0 h
  simp only [Nat.zero_add]
  exact ⟨m, hm, hn, hp⟩

theorem length_numbered (t : Tape K) : (numbered t.inputs).length = t.width := by
  rw [width_eq, nonzerosOf, ← map_numbered, List.length_map]

/-- No pair of two lists of one length differs in `f` and `g` exactly if the lists agree in them. -/
theorem find?_zip_eq_none_iff {α β γ : Type} [DecidableEq γ] (f : α → γ) (g : β → γ) :
    ∀ (xs : List α) (ys : List β) (o : Nat), xs.length = ys.length →
      (((xs.zip ys).zipIdx o).find? (fun p => decide (f p.1.1 ≠ g p.1.2)) = none ↔
        xs.map f = ys.map g)
  | [], [], o, _ => by simp
  | [], y :: ys, o, h => by simp at h
  | x :: xs, [], o, h => by simp at h
  | x :: xs, y :: ys, o, h => by
    have ih := find?_zip_eq_none_iff f g xs ys (o + 1) (by simpa using h)
    by_cases hxy : f x = g y
    · simpa [List.zipIdx_cons, List.find?_cons, hxy] using ih
    · simp [List.zipIdx_cons, hxy]

/-- Lists of values go with the nonzeros of a side exactly if there are as many lists as matrices,
and as many values as nonzeros in each. -/
theorem checkShape_ok_iff {V : Type} (t : Tape K) (side : Side) (args : List (List V)) :
    t.checkShape side args = .ok () ↔
      args.map List.length = (t.sideOf side).map (·.nnz) := by
  unfold checkShape
  by_cases hl : args.length = (t.sideOf side).length
  · rw [if_neg (not_not_intro hl),
      ← find?_zip_eq_none_iff List.length SparseMatrix.nnz args (t.sideOf side) 0 hl]
    cases List.find? (fun p => decide (p.1.1.length ≠ p.1.2.nnz))
      (args.zip (t.sideOf side)).zipIdx with
    | none => simp [pure, Except.pure]
    | some p => simp [Result.inconsistent]
  · rw [if_pos hl]
    constructor
    · intro h
      cases h
    · intro h
      exact absurd (by simpa using congrArg List.length h) hl

end Tape

end Tangent
