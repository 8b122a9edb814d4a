import Mathlib.Data.List.Nodup
import Mathlib.Data.Set.Defs
import Mathlib.Logic.Relation
import Tangent.Node.Basic

/-!
# Graphs of nodes

A node stands for everything that it reaches through operands (`Node.Reaches`). Whether two nodes
are one is decided by their numbers alone, so what is said about a graph needs a set of nodes in
which a number stands for one node. Such a set, closed under operands, is a `Graph`. It has no
cycles, because a node is larger than its operands.
-/

namespace Tangent

variable {K : Type}

namespace Node

/-- What holds of a node as soon as it holds of its operands holds of every node. -/
theorem operands_induction {P : Node K → Prop} (h : ∀ n, (∀ x ∈ n.operands, P x) → P n)
    (n : Node K) : P n := by
  induction n with
  | const id v => exact h _ (by simp [operands])
  | symbol id name => exact h _ (by simp [operands])
  | unary id u x ih => exact h _ (by simpa [operands] using ih)
  | binary id op x y ihx ihy => exact h _ (by simpa [operands] using ⟨ihx, ihy⟩)

theorem size_lt_of_mem_operands {n x : Node K} (h : x ∈ n.operands) : x.size < n.size := by
  cases n with
  | const id v => simp [operands] at h
  | symbol id name => simp [operands] at h
  | unary id u y =>
    obtain rfl : x = y := by simpa [operands] using h
    simp [size]
  | binary id op y z =>
    have : x = y ∨ x = z := by simpa [operands] using h
    rcases this with rfl | rfl <;> simp only [size] <;> omega

theorem isSymbol_iff {n : Node K} : n.isSymbol ↔ ∃ s, n.name? = some s :=
  Option.isSome_iff_exists

theorem operands_of_isSymbol {n : Node K} (h : n.isSymbol) : n.operands = [] := by
  cases n <;> simp_all [isSymbol, name?, operands]

/-- The second node is reached from the first through operands, in any number of steps. -/
def Reaches : Node K → Node K → Prop :=
  Relation.ReflTransGen fun n x => x ∈ n.operands

namespace Reaches

variable {n m x : Node K}

theorem refl (n : Node K) : n.Reaches n :=
  Relation.ReflTransGen.refl

theorem head (hx : x ∈ n.operands) (h : x.Reaches m) : n.Reaches m :=
  Relation.ReflTransGen.head hx h

/-- What holds of a node and is passed on to operands holds of all that the node reaches. -/
theorem inherits {P : Node K → Prop} (hP : ∀ m, P m → ∀ x ∈ m.operands, P x) (hn : P n)
    (h : n.Reaches m) : P m := by
  induction h with
  | refl => exact hn
  | tail _ hx ih => exact hP _ ih _ hx

theorem size_le (h : n.Reaches m) : m.size ≤ n.size :=
  h.inherits (P := fun m => m.size ≤ n.size)
    (fun _ hm _ hx => Nat.le_trans (Nat.le_of_lt (size_lt_of_mem_operands hx)) hm) (Nat.le_refl _)

end Reaches

theorem reaches_iff {n m : Node K} : n.Reaches m ↔ m = n ∨ ∃ x ∈ n.operands, x.Reaches m := by
  unfold Reaches
  rw [Relation.ReflTransGen.cases_head_iff, eq_comm]

/-- No node is reached from its own operands. -/
theorem not_reaches_of_mem_operands {n x : Node K} (hx : x ∈ n.operands) : ¬x.Reaches n := by
  intro h
  have := h.size_le
  have := size_lt_of_mem_operands hx
  omega

end Node

/-- A set of nodes that is closed under operands, and in which a number stands for one node. -/
structure Graph (K : Type) where
  nodes : Set (Node K)
  operands_mem : ∀ {n x : Node K}, n ∈ nodes → x ∈ n.operands → x ∈ nodes
  eq_of_id : ∀ {m n : Node K}, m ∈ nodes → n ∈ nodes → m.id = n.id → m = n

namespace Graph

instance : Membership (Node K) (Graph K) :=
  ⟨fun G n => n ∈ G.nodes⟩

/-- The graph of listed nodes : operands are on the list, and no number occurs twice. -/
def ofList (ns : List (Node K)) (hops : ∀ n ∈ ns, ∀ x ∈ n.operands, x ∈ ns)
    (hd : (ns.map Node.id).Nodup) : Graph K where
  nodes := {n | n ∈ ns}
  operands_mem hn hx := hops _ hn _ hx
  eq_of_id hm hn := List.inj_on_of_nodup_map hd hm hn

variable {G : Graph K}

theorem mem_of_unary {i : Nat} {u : Unary} {x : Node K} (h : .unary i u x ∈ G) : x ∈ G :=
  G.operands_mem h (by simp [Node.operands])

theorem mem_left {i : Nat} {op : Binary} {x y : Node K} (h : .binary i op x y ∈ G) : x ∈ G :=
  G.operands_mem h (by simp [Node.operands])

theorem mem_right {i : Nat} {op : Binary} {x y : Node K} (h : .binary i op x y ∈ G) : y ∈ G :=
  G.operands_mem h (by simp [Node.operands])

theorem mem_of_reaches {n m : Node K} (hn : n ∈ G) (h : n.Reaches m) : m ∈ G :=
  h.inherits (fun _ hm _ hx => G.operands_mem hm hx) hn

theorem nodup_map_id {ns : List (Node K)} (hG : ∀ n ∈ ns, n ∈ G) :
    (ns.map Node.id).Nodup ↔ ns.Nodup := by
  refine ⟨List.Nodup.of_map _, fun h => ?_⟩
  exact h.map_on fun a ha b hb => G.eq_of_id (hG a ha) (hG b hb)

end Graph

end Tangent
