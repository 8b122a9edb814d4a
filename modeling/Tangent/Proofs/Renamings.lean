import Mathlib
import Tangent.Proofs.Labels

/-!
# The tree of labels determines the graph

Two lists of roots have one tree of labels exactly if their graphs differ by a `Renaming` of nodes
(`Outline.tree_determines_graph`). If there is a renaming, the walks through the two graphs take the
same steps, because the numbers that were met correspond (`Renaming.alike`). Conversely, a node is
renamed to the one with the same number in the other outline (`twinOf`). Every number is laid out
somewhere, and there both outlines show what the two nodes are and which numbers their operands have
(`Outline.Alike.looksLike`).
-/

namespace Tangent

open Node (reachedFrom firstVisits OutlinedAs AllOutlinedAs)

variable {K : Type} [Numeral K] {G H : Graph K}

/-- A renaming of the nodes that some roots reach. Operations and the order of operands are kept,
and so are the names of symbols, the way in which constants are written, and what is shared. -/
structure Renaming (f : Node K → Node K) (roots roots' : List (Node K)) : Prop where
  map_roots : roots' = roots.map f
  bijOn : Set.BijOn f (reachedFrom roots) (reachedFrom roots')
  same : ∀ m ∈ reachedFrom roots, ∀ n ∈ reachedFrom roots, (f m).same (f n) = m.same n
  op : ∀ n ∈ reachedFrom roots, (f n).op = n.op
  operands : ∀ n ∈ reachedFrom roots, (f n).operands = n.operands.map f
  name? : ∀ n ∈ reachedFrom roots, (f n).name? = n.name?
  numeral? : ∀ n ∈ reachedFrom roots,
    (f n).value?.map Numeral.numeral = n.value?.map Numeral.numeral

/-! ## Renamed graphs have one tree of labels -/

/-- What a node can be renamed to, given what its operands are renamed to. -/
inductive RenamedAs (f : Node K → Node K) : Node K → Node K → Prop
  | const (i j : Nat) {v w : K} (h : Numeral.numeral v = Numeral.numeral w) :
      RenamedAs f (.const i v) (.const j w)
  | symbol (i j : Nat) (s : String) : RenamedAs f (.symbol i s) (.symbol j s)
  | unary (i j : Nat) (u : Unary) (x : Node K) : RenamedAs f (.unary i u x) (.unary j u (f x))
  | binary (i j : Nat) (op : Binary) (x y : Node K) :
      RenamedAs f (.binary i op x y) (.binary j op (f x) (f y))

/-- Numbers that correspond stand at the same place. -/
theorem idxOf_eq_of_forall₂ {R : Nat → Nat → Prop} {is js : List Nat} (h : List.Forall₂ R is js)
    {a b : Nat} (hab : ∀ i j, R i j → (i = a ↔ j = b)) :
    (a ∈ is ↔ b ∈ js) ∧ is.idxOf a = js.idxOf b := by
  induction h with
  | nil => simp
  | @cons i j is js hij hrest ih =>
    have hiff := hab i j hij
    by_cases hi : i = a
    · obtain rfl := hi
      obtain rfl := hiff.1 rfl
      simp
    · have hj := mt hiff.2 hi
      simp [List.idxOf_cons_ne _ hi, List.idxOf_cons_ne _ hj, Ne.symm hi, Ne.symm hj, ih.1, ih.2]

omit [Numeral K] in
theorem Node.same_eq_same_iff {m n m' n' : Node K} :
    m.same n = m'.same n' ↔ (m.id = n.id ↔ m'.id = n'.id) := by
  rw [Node.same, Node.same, Bool.beq_eq_decide_eq, Bool.beq_eq_decide_eq, decide_eq_decide]

namespace Renaming

variable {f : Node K → Node K} {roots roots' : List (Node K)} {n : Node K}
  {seen seen' other other' : List Nat}

theorem renamedAs (h : Renaming f roots roots') (hn : n ∈ reachedFrom roots) :
    RenamedAs f n (f n) := by
  have hop := h.op n hn
  have hoperands := h.operands n hn
  have hname := h.name? n hn
  have hnumeral := h.numeral? n hn
  generalize f n = n' at hop hoperands hname hnumeral
  cases n with
  | const i v =>
    cases n' with
    | const j w => exact .const i j (by simpa [Node.value?] using hnumeral.symm)
    | _ => cases hop
  | symbol i s =>
    cases n' with
    | symbol j t =>
      obtain rfl : t = s := Option.some.inj hname
      exact .symbol i j t
    | _ => cases hop
  | unary i u x =>
    cases n' with
    | unary j u' x' =>
      cases hop
      obtain rfl : x' = f x := (List.cons.inj hoperands).1
      exact .unary i j u x
    | _ => cases hop
  | binary i op x y =>
    cases n' with
    | binary j op' x' y' =>
      cases hop
      obtain ⟨rfl, hrest⟩ : x' = f x ∧ _ := List.cons.inj hoperands
      obtain rfl : y' = f y := (List.cons.inj hrest).1
      exact .binary i j op x y
    | _ => cases hop

/-- The second number is that of what the node with the first one is renamed to. -/
def Corresponds (f : Node K → Node K) (roots : List (Node K)) (i j : Nat) : Prop :=
  ∃ n ∈ reachedFrom roots, n.id = i ∧ (f n).id = j

theorem corresponds_iff (h : Renaming f roots roots') (hn : n ∈ reachedFrom roots) {i j : Nat}
    (hij : Corresponds f roots i j) : i = n.id ↔ j = (f n).id := by
  obtain ⟨m, hm, rfl, rfl⟩ := hij
  exact (Node.same_eq_same_iff.1 (h.same m hm n hn)).symm

theorem mem_iff (h : Renaming f roots roots') (hn : n ∈ reachedFrom roots)
    (hseen : List.Forall₂ (Corresponds f roots) seen other) :
    (n.id ∈ seen ↔ (f n).id ∈ other) ∧ seen.idxOf n.id = other.idxOf (f n).id :=
  idxOf_eq_of_forall₂ hseen fun _ _ hij => h.corresponds_iff hn hij

/-- If a node was not met, what it is renamed to was not met either, and after both of them the
numbers still correspond. -/
theorem fresh (h : Renaming f roots roots') (hn : n ∈ reachedFrom roots)
    (hseen : List.Forall₂ (Corresponds f roots) seen other) (hid : n.id ∉ seen) :
    (f n).id ∉ other ∧ RenamedAs f n (f n) ∧
      List.Forall₂ (Corresponds f roots) (seen ++ [n.id]) (other ++ [(f n).id]) :=
  ⟨mt (h.mem_iff hn hseen).1.2 hid, h.renamedAs hn,
    List.rel_append hseen (.cons ⟨n, hn, rfl, rfl⟩ .nil)⟩

/-- The walk through the renamed graph takes the same steps. -/
theorem alike (h : Renaming f roots roots') {o o' : Outline K} (hn : n ∈ reachedFrom roots)
    (hseen : List.Forall₂ (Corresponds f roots) seen other) (ho : OutlinedAs seen n o seen')
    (ho' : OutlinedAs other (f n) o' other') :
    o.Alike o' ∧ List.Forall₂ (Corresponds f roots) seen' other' := by
  induction ho generalizing o' other other' with
  | again hi =>
    obtain ⟨hiff, hidx⟩ := h.mem_iff hn hseen
    obtain ⟨rfl, rfl⟩ := ho'.eq_again (hiff.1 hi)
    rw [hidx]
    exact ⟨.again _, hseen⟩
  | @const seen i v hi =>
    obtain ⟨hi', hrenamed, hconcat⟩ := h.fresh hn hseen hi
    -- All that matters of the renamed node is that it is of the same kind and was not met.
    generalize f (.const i v) = n' at ho' hi' hrenamed hconcat
    cases hrenamed with
    | const _ j hv =>
      cases ho' with
      | again hj => exact absurd hj hi'
      | const _ _ =>
        rw [hseen.length_eq]
        exact ⟨.const _ hv, hconcat⟩
  | @symbol seen i s hi =>
    obtain ⟨hi', hrenamed, hconcat⟩ := h.fresh hn hseen hi
    generalize f (.symbol i s) = n' at ho' hi' hrenamed hconcat
    cases hrenamed with
    | symbol _ j _ =>
      cases ho' with
      | again hj => exact absurd hj hi'
      | symbol _ _ =>
        rw [hseen.length_eq]
        exact ⟨.symbol _ s, hconcat⟩
  | @unary seen seen' i u x o hi hx ih =>
    obtain ⟨hi', hrenamed, hconcat⟩ := h.fresh hn hseen hi
    have hxn := Node.operands_mem_reachedFrom hn (x := x) (by simp [Node.operands])
    generalize f (.unary i u x) = n' at ho' hi' hrenamed hconcat
    cases hrenamed with
    | unary _ j _ _ =>
      cases ho' with
      | again hj => exact absurd hj hi'
      | unary _ _ hx' =>
        obtain ⟨halike, hseen'⟩ := ih hxn hconcat hx'
        rw [hseen.length_eq]
        exact ⟨.unary _ u halike, hseen'⟩
  | @binary seen seen' seen'' i op x y o₁ o₂ hi hx hy ihx ihy =>
    obtain ⟨hi', hrenamed, hconcat⟩ := h.fresh hn hseen hi
    have hxn := Node.operands_mem_reachedFrom hn (x := x) (by simp [Node.operands])
    have hyn := Node.operands_mem_reachedFrom hn (x := y) (by simp [Node.operands])
    generalize f (.binary i op x y) = n' at ho' hi' hrenamed hconcat
    cases hrenamed with
    | binary _ j _ _ _ =>
      cases ho' with
      | again hj => exact absurd hj hi'
      | binary _ _ hx' hy' =>
        obtain ⟨halike, hseen'⟩ := ihx hxn hconcat hx'
        obtain ⟨halike', hseen''⟩ := ihy hyn hseen' hy'
        rw [hseen.length_eq]
        exact ⟨.binary _ op halike halike', hseen''⟩

theorem forall₂_alike (h : Renaming f roots roots') {ns : List (Node K)}
    {os os' : List (Outline K)} (hns : ∀ n ∈ ns, n ∈ reachedFrom roots)
    (hseen : List.Forall₂ (Corresponds f roots) seen other) (ho : AllOutlinedAs seen ns os seen')
    (ho' : AllOutlinedAs other (ns.map f) os' other') : List.Forall₂ Outline.Alike os os' := by
  induction ho generalizing os' other with
  | nil seen =>
    cases ho'
    exact .nil
  | cons hn hrest ih =>
    obtain ⟨hfirst, hns⟩ := List.forall_mem_cons.1 hns
    cases ho' with
    | cons hn' hrest' =>
      obtain ⟨halike, hseen'⟩ := h.alike hfirst hseen hn hn'
      exact .cons halike (ih hns hseen' hrest')

theorem tree_eq (h : Renaming f roots roots') :
    Outline.tree (Node.outlines roots) = Outline.tree (Node.outlines roots') := by
  obtain ⟨seen, hwalk⟩ := Node.exists_allOutlinedAs roots
  obtain ⟨seen', hwalk'⟩ := Node.exists_allOutlinedAs roots'
  have hroots : ∀ n ∈ roots, n ∈ reachedFrom roots := fun n hn => ⟨n, hn, .refl n⟩
  rw [h.map_roots] at hwalk' ⊢
  exact Outline.tree_eq_iff.2 (h.forall₂_alike hroots .nil hwalk hwalk')

end Renaming

/-! ## One tree of labels is that of renamed graphs -/

namespace Outline

variable {o o' : Outline K} {os os' : List (Outline K)} {m n : Node K}
  {ms ns order order' : List (Node K)}

theorem Alike.number_eq (h : Alike o o') : o.number = o'.number := by
  cases h <;> rfl

theorem Alike.laidOut?_eq (h : Alike o o') : o.laidOut? = o'.laidOut? := by
  cases h <;> rfl

theorem Alike.entries (h : Alike o o') : List.Forall₂ Alike o.entries o'.entries := by
  induction h with
  | again i => exact .cons (.again i) .nil
  | const i h => exact .cons (.const i h) .nil
  | symbol i s => exact .cons (.symbol i s) .nil
  | unary i u hx ih => exact .cons (.unary i u hx) ih
  | binary i op hx hy ihx ihy => exact .cons (.binary i op hx hy) (List.rel_append ihx ihy)

theorem forall₂_entries (h : List.Forall₂ Alike os os') :
    List.Forall₂ Alike (os.flatMap entries) (os'.flatMap entries) :=
  List.rel_flatMap h fun _ _ ho => ho.entries

theorem filterMap_laidOut?_eq (h : List.Forall₂ Alike os os') :
    os.filterMap laidOut? = os'.filterMap laidOut? := by
  induction h with
  | nil => rfl
  | cons ho hos ih => rw [List.filterMap_cons, List.filterMap_cons, ho.laidOut?_eq, ih]

/-- The two nodes have one number. -/
def Twins (order order' : List (Node K)) (m n : Node K) : Prop :=
  ∃ i : Nat, order[i]? = some m ∧ order'[i]? = some n

theorem Alike.twins (h : Alike o o') (hm : o.Shows order m) (hn : o'.Shows order' n) :
    Twins order order' m n :=
  ⟨o.number, hm.getElem?, h.number_eq ▸ hn.getElem?⟩

/-- As far as their own labels tell, the two nodes are the same, and their operands have the same
numbers. -/
structure LooksLike (order order' : List (Node K)) (m n : Node K) : Prop where
  op : n.op = m.op
  name? : n.name? = m.name?
  numeral? : n.value?.map Numeral.numeral = m.value?.map Numeral.numeral
  operands : List.Forall₂ (Twins order order') m.operands n.operands

theorem Alike.looksLike (h : Alike o o') {i : Nat} (hi : o.laidOut? = some i)
    (hm : o.Shows order m) (hn : o'.Shows order' n) : LooksLike order order' m n := by
  cases h with
  | again j => cases hi
  | const j h =>
    cases hm
    cases hn
    exact ⟨rfl, rfl, congrArg some h.symm, .nil⟩
  | symbol j s =>
    cases hm
    cases hn
    exact ⟨rfl, rfl, rfl, .nil⟩
  | unary j u hx =>
    cases hm with
    | unary _ hmx =>
      cases hn with
      | unary _ hnx => exact ⟨rfl, rfl, rfl, .cons (hx.twins hmx hnx) .nil⟩
  | binary j op hx hy =>
    cases hm with
    | binary _ hmx hmy =>
      cases hn with
      | binary _ hnx hny =>
        exact ⟨rfl, rfl, rfl, .cons (hx.twins hmx hnx) (.cons (hy.twins hmy hny) .nil)⟩

theorem forall₂_twins (h : List.Forall₂ Alike os os') (hms : List.Forall₂ (Shows order) os ms)
    (hns : List.Forall₂ (Shows order') os' ns) : List.Forall₂ (Twins order order') ms ns := by
  induction h generalizing ms ns with
  | nil =>
    cases hms
    cases hns
    exact .nil
  | cons ho hos ih =>
    cases hms with
    | cons hm hms =>
      cases hns with
      | cons hn hns => exact .cons (ho.twins hm hn) (ih hms hns)

end Outline

/-- The node of the second order that has the number of a node of the first. -/
def twinOf (order order' : List (Node K)) (m : Node K) : Node K :=
  (order'[(order.map Node.id).idxOf m.id]?).getD m

namespace Outline

variable {os os' : List (Outline K)} {m n : Node K} {ms ns order order' : List (Node K)}

omit [Numeral K] in
theorem Twins.twinOf_eq (h : Twins order order' m n) (hnodup : (order.map Node.id).Nodup) :
    twinOf order order' m = n := by
  obtain ⟨i, hm, hn⟩ := h
  have hid : (order.map Node.id)[i]? = some m.id := by rw [List.getElem?_map, hm]; rfl
  obtain ⟨hlt, hget⟩ := List.getElem?_eq_some_iff.1 hid
  rw [twinOf, ← hget, hnodup.idxOf_getElem i hlt, hn, Option.getD_some]

omit [Numeral K] in
/-- A node is the twin of one node only. -/
theorem Twins.left_unique {m' : Node K} (h : Twins order order' m n)
    (h' : Twins order order' m' n) (hnodup : order'.Nodup) : m = m' := by
  obtain ⟨i, hm, hn⟩ := h
  obtain ⟨j, hm', hn'⟩ := h'
  obtain ⟨hi, -⟩ := List.getElem?_eq_some_iff.1 hn
  obtain rfl := (List.getElem?_inj hi hnodup).1 (hn.trans hn'.symm)
  exact Option.some.inj (hm.symm.trans hm')

omit [Numeral K] in
theorem map_twinOf (h : List.Forall₂ (Twins order order') ms ns)
    (hnodup : (order.map Node.id).Nodup) : ns = ms.map (twinOf order order') := by
  have heq := h.imp fun _ _ htwins => htwins.twinOf_eq hnodup
  rw [← List.forall₂_map_left_iff (R := fun a b => a = b), List.forall₂_eq_eq_eq] at heq
  exact heq.symm

end Outline

namespace Outlined

open Outline

variable {os os' : List (Outline K)} {m n : Node K} {ms ns : List (Node K)}

/-- Outlines that are alike number as many nodes. -/
theorem length_eq (hm : Outlined ms os) (hn : Outlined ns os') (h : List.Forall₂ Alike os os') :
    (firstVisits ms).length = (firstVisits ns).length := by
  have hlaid := filterMap_laidOut?_eq (forall₂_entries h)
  rw [hm.laidOut, hn.laidOut] at hlaid
  simpa using congrArg List.length hlaid

theorem exists_twin (hm : Outlined ms os) (hn : Outlined ns os') (h : List.Forall₂ Alike os os')
    (hmem : m ∈ reachedFrom ms) : ∃ n, Twins (firstVisits ms) (firstVisits ns) m n := by
  obtain ⟨i, hi, rfl⟩ := List.getElem_of_mem ((hm.mem_iff m).2 hmem)
  have hi' : i < (firstVisits ns).length := hm.length_eq hn h ▸ hi
  exact ⟨_, i, List.getElem?_eq_getElem hi, List.getElem?_eq_getElem hi'⟩

/-- Nodes with one number look alike, for the number is laid out somewhere. -/
theorem looksLike (hm : Outlined ms os) (hn : Outlined ns os') (h : List.Forall₂ Alike os os')
    (htwins : Twins (firstVisits ms) (firstVisits ns) m n) :
    LooksLike (firstVisits ms) (firstVisits ns) m n := by
  obtain ⟨i, hmi, hni⟩ := htwins
  have hi : i ∈ (os.flatMap entries).filterMap laidOut? := by
    rw [hm.laidOut, List.mem_range]
    exact (List.getElem?_eq_some_iff.1 hmi).1
  obtain ⟨e, he, hlaid⟩ := List.mem_filterMap.1 hi
  obtain ⟨k, hk, rfl⟩ := List.getElem_of_mem he
  have hentries := forall₂_entries h
  have hk' := hentries.length_eq ▸ hk
  have halike : (os.flatMap entries)[k].Alike (os'.flatMap entries)[k] := hentries.get hk hk'
  obtain ⟨m', hm'⟩ := exists_shows_of_mem hm.shows he
  obtain ⟨n', hn'⟩ := exists_shows_of_mem hn.shows (List.getElem_mem hk')
  have hlaid' := halike.laidOut?_eq.symm.trans hlaid
  obtain rfl : m' = m := Option.some.inj ((hm'.getElem?_of_laidOut? hlaid).symm.trans hmi)
  obtain rfl : n' = n := Option.some.inj ((hn'.getElem?_of_laidOut? hlaid').symm.trans hni)
  exact halike.looksLike hlaid hm' hn'

theorem twins_twinOf (hm : Outlined ms os) (hn : Outlined ns os') (h : List.Forall₂ Alike os os')
    (hmem : m ∈ reachedFrom ms) :
    Twins (firstVisits ms) (firstVisits ns) m (twinOf (firstVisits ms) (firstVisits ns) m) := by
  obtain ⟨n, htwins⟩ := hm.exists_twin hn h hmem
  rwa [htwins.twinOf_eq (Node.nodup_map_id_firstVisits ms)]

theorem bijOn_twinOf (hm : Outlined ms os) (hn : Outlined ns os') (h : List.Forall₂ Alike os os') :
    Set.BijOn (twinOf (firstVisits ms) (firstVisits ns)) (reachedFrom ms) (reachedFrom ns) := by
  refine ⟨fun m hmem => ?mapsTo, fun m hmem m' hmem' heq => ?injOn, fun n hmem => ?surjOn⟩
  case mapsTo =>
    obtain ⟨i, -, hni⟩ := hm.twins_twinOf hn h hmem
    exact (hn.mem_iff _).1 (List.mem_of_getElem? hni)
  case injOn =>
    exact (hm.twins_twinOf hn h hmem).left_unique (heq ▸ hm.twins_twinOf hn h hmem') hn.nodup
  case surjOn =>
    obtain ⟨i, hi, rfl⟩ := List.getElem_of_mem ((hn.mem_iff n).2 hmem)
    have hi' : i < (firstVisits ms).length := hm.length_eq hn h ▸ hi
    have htwins : Twins (firstVisits ms) (firstVisits ns) (firstVisits ms)[i] (firstVisits ns)[i] :=
      ⟨i, List.getElem?_eq_getElem hi', List.getElem?_eq_getElem hi⟩
    exact ⟨_, (hm.mem_iff _).1 (List.getElem_mem hi'),
      htwins.twinOf_eq (Node.nodup_map_id_firstVisits ms)⟩

omit [Numeral K] in
/-- Of the nodes that are reached, no two have one identity. -/
theorem id_eq_iff (hm : Outlined ms os) (hmem : m ∈ reachedFrom ms) (hmem' : n ∈ reachedFrom ms) :
    m.id = n.id ↔ m = n := by
  refine ⟨fun hid => ?_, congrArg Node.id⟩
  exact List.inj_on_of_nodup_map (Node.nodup_map_id_firstVisits ms) ((hm.mem_iff m).2 hmem)
    ((hm.mem_iff n).2 hmem') hid

theorem renaming_twinOf (hm : Outlined ms os) (hn : Outlined ns os')
    (h : List.Forall₂ Alike os os') :
    Renaming (twinOf (firstVisits ms) (firstVisits ns)) ms ns := by
  have hnodup := Node.nodup_map_id_firstVisits ms
  have hbij := hm.bijOn_twinOf hn h
  have hlooks : ∀ m ∈ reachedFrom ms, LooksLike (firstVisits ms) (firstVisits ns) m
      (twinOf (firstVisits ms) (firstVisits ns) m) :=
    fun m hmem => hm.looksLike hn h (hm.twins_twinOf hn h hmem)
  exact {
    map_roots := map_twinOf (forall₂_twins h hm.shows hn.shows) hnodup
    bijOn := hbij
    same := by
      intro m hmem m' hmem'
      rw [Node.same_eq_same_iff, hn.id_eq_iff (hbij.mapsTo hmem) (hbij.mapsTo hmem'),
        hm.id_eq_iff hmem hmem']
      exact hbij.injOn.eq_iff hmem hmem'
    op := fun m hmem => (hlooks m hmem).op
    operands := fun m hmem => map_twinOf (hlooks m hmem).operands hnodup
    name? := fun m hmem => (hlooks m hmem).name?
    numeral? := fun m hmem => (hlooks m hmem).numeral? }

end Outlined

/-- The outlines of some roots show every node that is reached once, under a number that tells when
it was first visited, and two lists of roots have one tree of labels exactly if their nodes differ
by a renaming. -/
theorem Outline.tree_determines_graph {ms ns : List (Node K)} (hm : ∀ m ∈ ms, m ∈ G)
    (hn : ∀ n ∈ ns, n ∈ H) :
    Outlined ms (Node.outlines ms) ∧
      (Outline.tree (Node.outlines ms) = Outline.tree (Node.outlines ns) ↔
        ∃ f, Renaming f ms ns) := by
  have houtlined := Node.outlined_outlines hm
  refine ⟨houtlined, fun h => ?_, fun ⟨f, h⟩ => h.tree_eq⟩
  exact ⟨_, houtlined.renaming_twinOf (Node.outlined_outlines hn) (Outline.tree_eq_iff.1 h)⟩

/-! ## The square of a sine

The square has one sine for both factors, and so has another square with nodes of its own. The
product of two sines of one symbol is the same expression, but a sine more. -/

namespace SineSquare

def x : Node Float := .symbol 1 "x"
def sine : Node Float := .unary 2 .sin x
def square : Node Float := .binary 3 .mul sine sine
def x' : Node Float := .symbol 9 "x"
def sine' : Node Float := .unary 5 .sin x'
def square' : Node Float := .binary 7 .mul sine' sine'
def secondSine : Node Float := .unary 4 .sin x
def product : Node Float := .binary 6 .mul sine secondSine

def nodes : List (Node Float) :=
  [square, x, square', x', product, sine, sine', secondSine]

def graph : Graph Float :=
  .ofList nodes
    (by simp [nodes, x, sine, square, x', sine', square', secondSine, product, Node.operands])
    (by decide)

theorem mem_graph {ms : List (Node Float)} (h : ms ⊆ nodes) : ∀ m ∈ ms, m ∈ graph :=
  h

theorem outlines_square : Node.outlines [square, x] =
    [.binary 0 .mul (.unary 1 .sin (.symbol 2 "x")) (.again 1), .again 2] := by
  rfl

theorem outlines_product : Node.outlines [product, x] =
    [.binary 0 .mul (.unary 1 .sin (.symbol 2 "x")) (.unary 3 .sin (.again 2)), .again 2] := by
  rfl

theorem tree_ne : Outline.tree (Node.outlines [square, x]) ≠
    Outline.tree (Node.outlines [product, x]) := by
  intro h
  rw [Outline.tree_eq_iff, outlines_square, outlines_product] at h
  cases h with
  | cons hfirst _ =>
    cases hfirst with
    | binary _ _ _ hsecond => cases hsecond

end SineSquare

/-- The squares differ by a renaming; the square and the product do not. -/
theorem Outline.tree_determines_graph_sineSquare :
    (∀ m ∈ [SineSquare.square, SineSquare.x], m ∈ SineSquare.graph) ∧
      (∀ m ∈ [SineSquare.square', SineSquare.x'], m ∈ SineSquare.graph) ∧
      (∀ m ∈ [SineSquare.product, SineSquare.x], m ∈ SineSquare.graph) ∧
      (∃ f, Renaming f [SineSquare.square, SineSquare.x] [SineSquare.square', SineSquare.x']) ∧
      ¬∃ f, Renaming f [SineSquare.square, SineSquare.x] [SineSquare.product, SineSquare.x] := by
  have hsquare : ∀ m ∈ [SineSquare.square, SineSquare.x], m ∈ SineSquare.graph :=
    SineSquare.mem_graph (by simp [SineSquare.nodes])
  have hsquare' : ∀ m ∈ [SineSquare.square', SineSquare.x'], m ∈ SineSquare.graph :=
    SineSquare.mem_graph (by simp [SineSquare.nodes])
  have hproduct : ∀ m ∈ [SineSquare.product, SineSquare.x], m ∈ SineSquare.graph :=
    SineSquare.mem_graph (by simp [SineSquare.nodes])
  exact ⟨hsquare, hsquare', hproduct, (tree_determines_graph hsquare hsquare').2.1 rfl,
    mt (tree_determines_graph hsquare hproduct).2.2 SineSquare.tree_ne⟩

end Tangent
