import Mathlib
import Tangent.Node.Outline
import Tangent.Proofs.NormalForm

/-!
# What an outline shows

An outline is made on a walk that numbers the nodes as it meets them, so all it says depends on what
was met before. `OutlinedAs` states once what the walk does at a node, and three facts follow by
induction on it. The entries are numbered in the order in which they stand, and a reference has a
number that is in use (`OutlinedAs.numbered`). Every entry shows the node that has its number
(`OutlinedAs.shows`). And the walk, which never looks below a node again, meets the nodes in the
order in which a walk through the whole expression would (`OutlinedAs.seen_eq`): what a node reaches
was met with it (`ClosedBelow`), because no node is met again before the walk has left it. The nodes
of that order, `Node.firstVisits`, are all that can be reached.
-/

namespace Tangent

variable {K : Type} {G : Graph K}

/-! ## The nodes in the order of the first visit -/

namespace Node

/-- The nodes of an expression from the top down and from left to right, as often as they occur. -/
def preorder : Node K → List (Node K)
  | const i v => [const i v]
  | symbol i s => [symbol i s]
  | unary i u x => unary i u x :: x.preorder
  | binary i op x y => binary i op x y :: (x.preorder ++ y.preorder)

theorem mem_preorder {n m : Node K} : m ∈ n.preorder ↔ n.Reaches m := by
  induction n with
  | const i v => simp [preorder, reaches_iff (n := const i v), operands]
  | symbol i s => simp [preorder, reaches_iff (n := symbol i s), operands]
  | unary i u x ih => simp [preorder, reaches_iff (n := unary i u x), operands, ih]
  | binary i op x y ihx ihy =>
    simp [preorder, reaches_iff (n := binary i op x y), operands, ihx, ihy]

theorem mem_flatMap_preorder {roots : List (Node K)} {n : Node K} :
    n ∈ roots.flatMap preorder ↔ n ∈ reachedFrom roots := by
  simp only [List.mem_flatMap, mem_preorder]
  rfl

theorem Reaches.trans {n m x : Node K} (h : n.Reaches m) (hx : m.Reaches x) : n.Reaches x :=
  Relation.ReflTransGen.trans h hx

/-- Add a node that is visited, unless it was visited before. -/
def visit (visited : List (Node K)) (n : Node K) : List (Node K) :=
  if n.id ∈ visited.map id then visited else visited ++ [n]

/-- The nodes that the roots reach, in the order in which a walk through the expressions comes to
them for the first time. -/
def firstVisits (roots : List (Node K)) : List (Node K) :=
  (roots.flatMap preorder).foldl visit []

/-- Add a number that was met, unless it was met before. -/
def note (seen : List Nat) (i : Nat) : List Nat :=
  if i ∈ seen then seen else seen ++ [i]

theorem map_id_visit (visited : List (Node K)) (n : Node K) :
    (visit visited n).map id = note (visited.map id) n.id := by
  unfold visit note
  split <;> simp

theorem map_id_foldl_visit (ns visited : List (Node K)) :
    (ns.foldl visit visited).map id = (ns.map id).foldl note (visited.map id) := by
  induction ns generalizing visited with
  | nil => rfl
  | cons n ns ih => rw [List.foldl_cons, ih, map_id_visit, List.map_cons, List.foldl_cons]

theorem mem_note {seen : List Nat} {i j : Nat} : j ∈ note seen i ↔ j ∈ seen ∨ j = i := by
  unfold note
  split
  · exact ⟨.inl, fun h => h.elim (fun hj => hj) fun hj => by rwa [hj]⟩
  · simp

theorem mem_foldl_note {is seen : List Nat} {j : Nat} :
    j ∈ is.foldl note seen ↔ j ∈ seen ∨ j ∈ is := by
  induction is generalizing seen with
  | nil => simp
  | cons i is ih => rw [List.foldl_cons, ih, mem_note, List.mem_cons, or_assoc]

/-- Nothing is added where all was met before. -/
theorem foldl_note_of_subset {is seen : List Nat} (h : ∀ i ∈ is, i ∈ seen) :
    is.foldl note seen = seen := by
  induction is with
  | nil => rfl
  | cons i is ih =>
    obtain ⟨hi, his⟩ := List.forall_mem_cons.1 h
    rw [List.foldl_cons, note, if_pos hi, ih his]

theorem nodup_foldl_note {is seen : List Nat} (h : seen.Nodup) : (is.foldl note seen).Nodup := by
  induction is generalizing seen with
  | nil => exact h
  | cons i is ih =>
    refine ih ?_
    unfold note
    split
    · exact h
    · next hi => exact List.concat_eq_append ▸ h.concat hi

theorem mem_of_mem_foldl_visit {ns visited : List (Node K)} {n : Node K}
    (h : n ∈ ns.foldl visit visited) : n ∈ visited ∨ n ∈ ns := by
  induction ns generalizing visited with
  | nil => exact .inl h
  | cons m ns ih =>
    rcases ih h with hn | hn
    · unfold visit at hn
      split at hn
      · exact .inl hn
      · rcases List.mem_append.1 hn with hn | hn
        · exact .inl hn
        · exact .inr (List.mem_cons.2 (.inl (List.mem_singleton.1 hn)))
    · exact .inr (List.mem_cons_of_mem m hn)

theorem nodup_map_id_firstVisits (roots : List (Node K)) : ((firstVisits roots).map id).Nodup := by
  rw [firstVisits, map_id_foldl_visit]
  exact nodup_foldl_note List.nodup_nil

/-- Each node that the roots reach is visited. -/
theorem mem_firstVisits {roots : List (Node K)} (hG : ∀ n ∈ roots, n ∈ G) {n : Node K} :
    n ∈ firstVisits roots ↔ n ∈ reachedFrom roots := by
  have hreached : ∀ m ∈ reachedFrom roots, m ∈ G := fun m hm => by
    obtain ⟨r, hr, hm⟩ := hm
    exact Graph.mem_of_reaches (hG r hr) hm
  have hvisited : ∀ m ∈ firstVisits roots, m ∈ reachedFrom roots := fun m hm =>
    mem_flatMap_preorder.1 ((mem_of_mem_foldl_visit hm).resolve_left List.not_mem_nil)
  refine ⟨hvisited n, fun hn => ?_⟩
  have hid : n.id ∈ (firstVisits roots).map id := by
    rw [firstVisits, map_id_foldl_visit, mem_foldl_note]
    exact .inr (List.mem_map_of_mem (mem_flatMap_preorder.2 hn))
  obtain ⟨m, hm, hmn⟩ := List.mem_map.1 hid
  rwa [← G.eq_of_id (hreached m (hvisited m hm)) (hreached n hn) hmn]

/-! ## The walk -/

/-- The outline of a node that the walk comes to after the numbers `seen` were met, and the numbers
that were met when it leaves the node. -/
inductive OutlinedAs : List Nat → Node K → Outline K → List Nat → Prop
  | again {seen : List Nat} {n : Node K} (h : n.id ∈ seen) :
      OutlinedAs seen n (.again (seen.idxOf n.id)) seen
  | const {seen : List Nat} {i : Nat} (v : K) (h : i ∉ seen) :
      OutlinedAs seen (.const i v) (.const seen.length v) (seen ++ [i])
  | symbol {seen : List Nat} {i : Nat} (s : String) (h : i ∉ seen) :
      OutlinedAs seen (.symbol i s) (.symbol seen.length s) (seen ++ [i])
  | unary {seen seen' : List Nat} {i : Nat} (u : Unary) {x : Node K} {o : Outline K}
      (h : i ∉ seen) (hx : OutlinedAs (seen ++ [i]) x o seen') :
      OutlinedAs seen (.unary i u x) (.unary seen.length u o) seen'
  | binary {seen seen' seen'' : List Nat} {i : Nat} (op : Binary) {x y : Node K}
      {o o' : Outline K} (h : i ∉ seen) (hx : OutlinedAs (seen ++ [i]) x o seen')
      (hy : OutlinedAs seen' y o' seen'') :
      OutlinedAs seen (.binary i op x y) (.binary seen.length op o o') seen''

/-- The walk takes one of two ways at a node. -/
theorem outlinedAs_ite {seen : List Nat} {n : Node K} {c : Prop} [Decidable c]
    {back on : StateM (List Nat) (Outline K)}
    (hback : c → OutlinedAs seen n (back.run seen).1 (back.run seen).2)
    (hon : ¬c → OutlinedAs seen n (on.run seen).1 (on.run seen).2) :
    OutlinedAs seen n ((ite c back on).run seen).1 ((ite c back on).run seen).2 := by
  split_ifs with h
  · exact hback h
  · exact hon h

theorem outlinedAs_run (n : Node K) (seen : List Nat) :
    OutlinedAs seen n (n.outline.run seen).1 (n.outline.run seen).2 := by
  induction n generalizing seen with
  | const i v => exact outlinedAs_ite (.again (n := const i v)) fun h => .const v h
  | symbol i s => exact outlinedAs_ite (.again (n := symbol i s)) fun h => .symbol s h
  | unary i u x ih => exact outlinedAs_ite (.again (n := unary i u x)) fun h => .unary u h (ih _)
  | binary i op x y ihx ihy =>
    exact outlinedAs_ite (.again (n := binary i op x y)) fun h => .binary op h (ihx _) (ihy _)

/-- The outlines of several nodes that the walk comes to one after the other. -/
inductive AllOutlinedAs : List Nat → List (Node K) → List (Outline K) → List Nat → Prop
  | nil (seen : List Nat) : AllOutlinedAs seen [] [] seen
  | cons {seen seen' seen'' : List Nat} {n : Node K} {ns : List (Node K)} {o : Outline K}
      {os : List (Outline K)} (hn : OutlinedAs seen n o seen')
      (hns : AllOutlinedAs seen' ns os seen'') : AllOutlinedAs seen (n :: ns) (o :: os) seen''

theorem allOutlinedAs_run (ns : List (Node K)) (seen : List Nat) :
    AllOutlinedAs seen ns ((ns.mapM outline).run seen).1 ((ns.mapM outline).run seen).2 := by
  induction ns generalizing seen with
  | nil => exact .nil seen
  | cons n ns ih =>
    rw [List.mapM_cons]
    exact .cons (outlinedAs_run n seen) (ih _)

theorem exists_allOutlinedAs (roots : List (Node K)) :
    ∃ seen, AllOutlinedAs [] roots (outlines roots) seen :=
  ⟨_, allOutlinedAs_run roots []⟩

variable {seen seen' : List Nat} {n : Node K} {ns : List (Node K)} {o : Outline K}
  {os : List (Outline K)}

/-- What was met stays met, with the number that it has. -/
theorem OutlinedAs.grows (h : OutlinedAs seen n o seen') : seen <+: seen' := by
  induction h with
  | again h => exact List.prefix_refl _
  | const v h => exact List.prefix_append _ _
  | symbol s h => exact List.prefix_append _ _
  | unary u h hx ih => exact (List.prefix_append _ _).trans ih
  | binary op h hx hy ihx ihy => exact ((List.prefix_append _ _).trans ihx).trans ihy

/-- Where a node was met before, the walk turns back. -/
theorem OutlinedAs.eq_again (h : OutlinedAs seen n o seen') (hn : n.id ∈ seen) :
    o = .again (seen.idxOf n.id) ∧ seen' = seen := by
  cases h with
  | again h => exact ⟨rfl, rfl⟩
  | const v h => exact absurd hn h
  | symbol s h => exact absurd hn h
  | unary u h hx => exact absurd hn h
  | binary op h hx hy => exact absurd hn h

theorem AllOutlinedAs.grows (h : AllOutlinedAs seen ns os seen') : seen <+: seen' := by
  induction h with
  | nil seen => exact List.prefix_refl _
  | cons hn hns ih => exact hn.grows.trans ih

end Node

/-! ## Numbers in order -/

namespace Outline

/-- The entries of an outline from the top down. -/
def entries : Outline K → List (Outline K)
  | unary i u x => unary i u x :: x.entries
  | binary i op x y => binary i op x y :: (x.entries ++ y.entries)
  | o => [o]

def number : Outline K → Nat
  | again i | const i _ | symbol i _ | unary i _ _ | binary i _ _ _ => i

/-- The number of an entry that lays out a node. -/
def laidOut? : Outline K → Option Nat
  | again _ => none
  | o => some o.number

/-- Entries whose numbers are given out in order, from the first of the two numbers up to the
second: a node that is laid out gets the next number, and a reference has one that is in use. -/
inductive Numbered : Nat → List (Outline K) → Nat → Prop
  | nil (next : Nat) : Numbered next [] next
  | again {next stop i : Nat} {es : List (Outline K)} (hi : i < next)
      (hes : Numbered next es stop) : Numbered next (.again i :: es) stop
  | laidOut {next stop : Nat} {e : Outline K} {es : List (Outline K)}
      (he : e.laidOut? = some next) (hes : Numbered (next + 1) es stop) :
      Numbered next (e :: es) stop

namespace Numbered

variable {start middle stop : Nat} {es fs : List (Outline K)}

theorem append (h : Numbered start es middle) (h' : Numbered middle fs stop) :
    Numbered start (es ++ fs) stop := by
  induction h with
  | nil next => exact h'
  | again hi hes ih => exact .again hi (ih h')
  | laidOut he hes ih => exact .laidOut he (ih h')

theorem split (h : Numbered start (es ++ fs) stop) :
    ∃ middle, Numbered start es middle ∧ Numbered middle fs stop := by
  induction es generalizing start with
  | nil => exact ⟨start, .nil start, h⟩
  | cons e es ih =>
    cases h with
    | again hi hes =>
      obtain ⟨middle, hes, hfs⟩ := ih hes
      exact ⟨middle, .again hi hes, hfs⟩
    | laidOut he hes =>
      obtain ⟨middle, hes, hfs⟩ := ih hes
      exact ⟨middle, .laidOut he hes, hfs⟩

/-- Each number is given out once. -/
theorem filterMap_laidOut? (h : Numbered start es stop) :
    ∃ count, stop = start + count ∧ es.filterMap laidOut? = List.range' start count := by
  induction h with
  | nil next => exact ⟨0, rfl, rfl⟩
  | again hi hes ih => exact ih
  | laidOut he hes ih =>
    obtain ⟨count, rfl, hcount⟩ := ih
    refine ⟨count + 1, by omega, ?_⟩
    rw [List.filterMap_cons, he, hcount, List.range'_succ]

theorem filterMap_laidOut?_of_zero (h : Numbered 0 es stop) :
    es.filterMap laidOut? = List.range stop := by
  obtain ⟨count, rfl, hcount⟩ := h.filterMap_laidOut?
  rw [hcount, Nat.zero_add, List.range_eq_range']

/-- A reference stands after the node that it refers to. -/
theorem mem_of_again {i : Nat} {before after : List (Outline K)}
    (h : Numbered 0 (before ++ .again i :: after) stop) : i ∈ before.filterMap laidOut? := by
  obtain ⟨middle, hbefore, hafter⟩ := h.split
  rw [hbefore.filterMap_laidOut?_of_zero, List.mem_range]
  cases hafter with
  | again hi _ => exact hi
  | laidOut he _ => cases he

end Numbered

end Outline

namespace Node

variable {seen seen' : List Nat} {n : Node K} {ns : List (Node K)} {o : Outline K}
  {os : List (Outline K)}

theorem OutlinedAs.numbered (h : OutlinedAs seen n o seen') :
    Outline.Numbered seen.length o.entries seen'.length := by
  induction h with
  | again h => exact .again (List.idxOf_lt_length_of_mem h) (.nil _)
  | const v h => exact .laidOut rfl (by simpa using .nil _)
  | symbol s h => exact .laidOut rfl (by simpa using .nil _)
  | unary u h hx ih => exact .laidOut rfl (by simpa using ih)
  | binary op h hx hy ihx ihy => exact .laidOut rfl (.append (by simpa using ihx) ihy)

theorem AllOutlinedAs.numbered (h : AllOutlinedAs seen ns os seen') :
    Outline.Numbered seen.length (os.flatMap Outline.entries) seen'.length := by
  induction h with
  | nil seen => exact .nil _
  | cons hn hns ih => exact hn.numbered.append ih

end Node

/-! ## Entries and nodes -/

/-- The entry shows the node, where the nodes are listed in the order of their numbers. A node that
is laid out has entries that show its operands. -/
inductive Outline.Shows (order : List (Node K)) : Outline K → Node K → Prop
  | again {i : Nat} {n : Node K} (h : order[i]? = some n) : Shows order (.again i) n
  | const {i j : Nat} {v : K} (h : order[i]? = some (.const j v)) :
      Shows order (.const i v) (.const j v)
  | symbol {i j : Nat} {s : String} (h : order[i]? = some (.symbol j s)) :
      Shows order (.symbol i s) (.symbol j s)
  | unary {i j : Nat} {u : Unary} {o : Outline K} {x : Node K}
      (h : order[i]? = some (.unary j u x)) (hx : Shows order o x) :
      Shows order (.unary i u o) (.unary j u x)
  | binary {i j : Nat} {op : Binary} {o o' : Outline K} {x y : Node K}
      (h : order[i]? = some (.binary j op x y)) (hx : Shows order o x) (hy : Shows order o' y) :
      Shows order (.binary i op o o') (.binary j op x y)

theorem Outline.Shows.getElem? {order : List (Node K)} {o : Outline K} {n : Node K}
    (h : Shows order o n) : order[o.number]? = some n := by
  cases h <;> assumption

theorem Outline.Shows.getElem?_of_laidOut? {order : List (Node K)} {o : Outline K} {n : Node K}
    {i : Nat} (h : Shows order o n) (hi : o.laidOut? = some i) : order[i]? = some n := by
  obtain rfl : o.number = i := by
    cases o with
    | again j => cases hi
    | _ => exact Option.some.inj hi
  exact h.getElem?

/-- Whatever an entry lays out, its parts show nodes as well. -/
theorem Outline.Shows.exists_of_mem_entries {order : List (Node K)} {o e : Outline K} {n : Node K}
    (h : Shows order o n) (he : e ∈ o.entries) : ∃ m, Shows order e m := by
  induction h with
  | again h =>
    obtain rfl := List.mem_singleton.1 he
    exact ⟨_, .again h⟩
  | const h =>
    obtain rfl := List.mem_singleton.1 he
    exact ⟨_, .const h⟩
  | symbol h =>
    obtain rfl := List.mem_singleton.1 he
    exact ⟨_, .symbol h⟩
  | unary h hx ih =>
    rcases List.mem_cons.1 he with rfl | he
    · exact ⟨_, .unary h hx⟩
    · exact ih he
  | binary h hx hy ihx ihy =>
    rcases List.mem_cons.1 he with rfl | he
    · exact ⟨_, .binary h hx hy⟩
    · exact (List.mem_append.1 he).elim ihx ihy

theorem Outline.exists_shows_of_mem {order : List (Node K)} {os : List (Outline K)}
    {ns : List (Node K)} (h : List.Forall₂ (Shows order) os ns) {e : Outline K}
    (he : e ∈ os.flatMap entries) : ∃ m, e.Shows order m := by
  induction h with
  | nil => cases he
  | cons ho hos ih =>
    rcases List.mem_append.1 he with he | he
    · exact ho.exists_of_mem_entries he
    · exact ih he

namespace Node

variable {seen seen' : List Nat} {n : Node K} {ns order : List (Node K)} {o : Outline K}
  {os : List (Outline K)}

/-- In a graph, a node is found by its number. -/
theorem getElem?_of_map_id (horder : ∀ m ∈ order, m ∈ G) (hn : n ∈ G) {k : Nat}
    (hk : (order.map id)[k]? = some n.id) : order[k]? = some n := by
  rw [List.getElem?_map, Option.map_eq_some_iff] at hk
  obtain ⟨m, hm, hid⟩ := hk
  rw [hm, G.eq_of_id (horder m (List.mem_of_getElem? hm)) hn hid]

/-- A node that is laid out gets the next number. -/
theorem getElem?_of_concat {i : Nat} {is : List Nat} (h : seen ++ [i] <+: is) :
    is[seen.length]? = some i := by
  obtain ⟨rest, rfl⟩ := h
  simp

theorem OutlinedAs.shows (h : OutlinedAs seen n o seen') (hn : n ∈ G)
    (horder : ∀ m ∈ order, m ∈ G) (hle : seen' <+: order.map id) : o.Shows order n := by
  induction h with
  | @again seen n h =>
    refine .again (getElem?_of_map_id horder hn ?_)
    obtain ⟨rest, hrest⟩ := hle
    rw [← hrest, List.getElem?_append_left (List.idxOf_lt_length_of_mem h),
      List.getElem?_eq_getElem (List.idxOf_lt_length_of_mem h), List.getElem_idxOf]
  | const v h => exact .const (getElem?_of_map_id horder hn (getElem?_of_concat hle))
  | symbol s h => exact .symbol (getElem?_of_map_id horder hn (getElem?_of_concat hle))
  | unary u h hx ih =>
    exact .unary (getElem?_of_map_id horder hn (getElem?_of_concat (hx.grows.trans hle)))
      (ih (Graph.mem_of_unary hn) hle)
  | binary op h hx hy ihx ihy =>
    have hle' := hy.grows.trans hle
    exact .binary (getElem?_of_map_id horder hn (getElem?_of_concat (hx.grows.trans hle')))
      (ihx (Graph.mem_left hn) hle') (ihy (Graph.mem_right hn) hle)

theorem AllOutlinedAs.shows (h : AllOutlinedAs seen ns os seen') (hns : ∀ n ∈ ns, n ∈ G)
    (horder : ∀ m ∈ order, m ∈ G) (hle : seen' <+: order.map id) :
    List.Forall₂ (Outline.Shows order) os ns := by
  induction h with
  | nil seen => exact .nil
  | cons hn hrest ih =>
    obtain ⟨hG, hns⟩ := List.forall_mem_cons.1 hns
    exact .cons (hn.shows hG horder (hrest.grows.trans hle)) (ih hns hle)

/-! ## The order of the walk -/

/-- What a node below `n` reaches was met if the node was. -/
def ClosedBelow (seen : List Nat) (n : Node K) : Prop :=
  ∀ m x : Node K, n.Reaches m → m.Reaches x → m.id ∈ seen → x.id ∈ seen

namespace ClosedBelow

variable {x y : Node K}

/-- The walk goes on to an operand. -/
theorem operand (h : ClosedBelow seen n) (hn : n ∈ G) (hx : x ∈ n.operands) :
    ClosedBelow (seen ++ [n.id]) x := by
  intro m z hm hz hseen
  rcases List.mem_append.1 hseen with hseen | hid
  · exact List.mem_append_left _ (h m z (.head hx hm) hz hseen)
  · -- The node itself is not below its operand.
    have hm' := Graph.mem_of_reaches hn (.head hx hm)
    obtain rfl := G.eq_of_id hm' hn (List.mem_singleton.1 hid)
    exact absurd hm (not_reaches_of_mem_operands hx)

/-- The walk goes on after it has been through all of another node. -/
theorem after (h : ClosedBelow seen y) (hx : x ∈ G) (hy : y ∈ G) :
    ClosedBelow ((x.preorder.map id).foldl note seen) y := by
  intro m z hm hz hseen
  rw [mem_foldl_note] at hseen ⊢
  rcases hseen with hseen | hid
  · exact .inl (h m z hm hz hseen)
  · obtain ⟨m', hm', hid⟩ := List.mem_map.1 hid
    have hreach := mem_preorder.1 hm'
    obtain rfl := G.eq_of_id (Graph.mem_of_reaches hx hreach) (Graph.mem_of_reaches hy hm) hid
    exact .inr (List.mem_map_of_mem (mem_preorder.2 (hreach.trans hz)))

theorem empty (n : Node K) : ClosedBelow [] n :=
  fun _ _ _ _ h => absurd h List.not_mem_nil

end ClosedBelow

/-- The walk meets the numbers that a walk through the whole expression meets, in the same order. -/
theorem OutlinedAs.seen_eq (h : OutlinedAs seen n o seen') (hn : n ∈ G)
    (hclosed : ClosedBelow seen n) : seen' = (n.preorder.map id).foldl note seen := by
  induction h with
  | @again seen n h =>
    refine (foldl_note_of_subset fun i hi => ?_).symm
    obtain ⟨x, hx, rfl⟩ := List.mem_map.1 hi
    exact hclosed n x (.refl n) (mem_preorder.1 hx) h
  | const v h => simp [preorder, note, id, h]
  | symbol s h => simp [preorder, note, id, h]
  | @unary seen seen' i u x o h hx ih =>
    have hx' : x ∈ (Node.unary i u x).operands := by simp [operands]
    rw [ih (Graph.mem_of_unary hn) (hclosed.operand hn hx')]
    simp [preorder, note, id, h]
  | @binary seen seen' seen'' i op x y o o' h hx hy ihx ihy =>
    have hx' : x ∈ (Node.binary i op x y).operands := by simp [operands]
    have hy' : y ∈ (Node.binary i op x y).operands := by simp [operands]
    have hseen := ihx (Graph.mem_left hn) (hclosed.operand hn hx')
    have hafter := (hclosed.operand hn hy').after (Graph.mem_left hn) (Graph.mem_right hn)
    rw [ihy (Graph.mem_right hn) (hseen ▸ hafter), hseen]
    simp [preorder, note, id, h]

theorem AllOutlinedAs.seen_eq (h : AllOutlinedAs seen ns os seen') (hns : ∀ n ∈ ns, n ∈ G)
    (hclosed : ∀ n ∈ ns, ClosedBelow seen n) :
    seen' = ((ns.flatMap preorder).map id).foldl note seen := by
  induction h with
  | nil seen => rfl
  | cons hn hrest ih =>
    obtain ⟨hG, hns⟩ := List.forall_mem_cons.1 hns
    obtain ⟨hfirst, hlater⟩ := List.forall_mem_cons.1 hclosed
    obtain rfl := hn.seen_eq hG hfirst
    rw [ih hns fun m hm => (hlater m hm).after hG (hns m hm), List.flatMap_cons, List.map_append,
      List.foldl_append]

theorem AllOutlinedAs.seen_eq_firstVisits (h : AllOutlinedAs [] ns os seen')
    (hns : ∀ n ∈ ns, n ∈ G) : seen' = (firstVisits ns).map id := by
  rw [h.seen_eq hns fun n _ => .empty n, firstVisits, map_id_foldl_visit]
  rfl

end Node

/-! ## Outlines of some roots -/

/-- What the outlines of some roots show: the nodes that the roots reach, in the order in which they
are first visited. -/
structure Outlined (roots : List (Node K)) (os : List (Outline K)) : Prop where
  /-- No node is numbered twice. -/
  nodup : (Node.firstVisits roots).Nodup
  /-- The nodes that are numbered are those that can be reached. -/
  mem_iff : ∀ n, n ∈ Node.firstVisits roots ↔ n ∈ Node.reachedFrom roots
  /-- Every entry shows the node of its number, and the entries below it show the operands. -/
  shows : List.Forall₂ (Outline.Shows (Node.firstVisits roots)) os roots
  /-- Every number is laid out once, in order. -/
  laidOut : (os.flatMap Outline.entries).filterMap Outline.laidOut? =
    List.range (Node.firstVisits roots).length
  /-- A reference has a number that was laid out before. -/
  again : ∀ before i after, os.flatMap Outline.entries = before ++ .again i :: after →
    i ∈ before.filterMap Outline.laidOut?

theorem Node.outlined_outlines {roots : List (Node K)} (hG : ∀ n ∈ roots, n ∈ G) :
    Outlined roots (outlines roots) := by
  obtain ⟨seen, hwalk⟩ := exists_allOutlinedAs roots
  obtain rfl := hwalk.seen_eq_firstVisits hG
  have horder : ∀ m ∈ firstVisits roots, m ∈ G := fun m hm => by
    obtain ⟨r, hr, hm⟩ := (mem_firstVisits hG).1 hm
    exact Graph.mem_of_reaches (hG r hr) hm
  have hnumbered := hwalk.numbered
  rw [List.length_map] at hnumbered
  refine ⟨(nodup_map_id_firstVisits roots).of_map _, fun n => mem_firstVisits hG,
    hwalk.shows hG horder (List.prefix_refl _), hnumbered.filterMap_laidOut?_of_zero, ?_⟩
  intro before i after hsplit
  exact (hsplit ▸ hnumbered).mem_of_again

end Tangent
