import Mathlib
import Tangent.Proofs.DoubleEquality

/-!
# Equality up to a depth approximates equality up to swaps

An expression, as it is written, is a tree (`Term`) : constants and operations have no
identity there, and a symbol is known by its number. Two expressions are the same up to swaps if one
becomes the other when the operands of commutative operations change places, any number of times and
at any level (`Term.SameUpToSwaps`).

Swapping is rewriting, and the trees on the way are no nodes. What an expression can become is read
off its root (`Term.sameUpToSwaps_binary_iff`), and that is what the comparison of nodes looks at,
one level after the other. So the comparison never equates more than swaps do
(`Node.sameUpToSwaps_of_equalUpTo`), and as much as they do if it goes deeper than the nodes are
high (`Node.equalUpTo_of_sameUpToSwaps`).
-/

namespace Tangent

variable {K C : Type}

/-! ## Terms up to swaps -/

/-- An expression as it is written, with constants of type `C`. -/
inductive Term (C : Type) where
  | const (c : C)
  | symbol (id : Nat)
  | unary (op : Unary) (x : Term C)
  | binary (op : Binary) (x y : Term C)

namespace Term

/-- The operands of one commutative operation change places, at any level. -/
inductive Swap : Term C → Term C → Prop
  | operands {op : Binary} (x y : Term C) : op.commutative →
      Swap (.binary op x y) (.binary op y x)
  | unary (op : Unary) {x x' : Term C} : Swap x x' → Swap (.unary op x) (.unary op x')
  | left (op : Binary) {x x' : Term C} (y : Term C) : Swap x x' →
      Swap (.binary op x y) (.binary op x' y)
  | right (op : Binary) (x : Term C) {y y' : Term C} : Swap y y' →
      Swap (.binary op x y) (.binary op x y')

/-- Swaps, any number of them, turn the first expression into the second. -/
def SameUpToSwaps : Term C → Term C → Prop :=
  Relation.ReflTransGen Swap

namespace SameUpToSwaps

variable {x x' y y' : Term C}

theorem refl (x : Term C) : x.SameUpToSwaps x :=
  Relation.ReflTransGen.refl

theorem unary (op : Unary) (h : x.SameUpToSwaps x') :
    (Term.unary op x).SameUpToSwaps (.unary op x') :=
  Relation.ReflTransGen.lift (Term.unary op) (fun _ _ => Swap.unary op) _ _ h

theorem binary (op : Binary) (hx : x.SameUpToSwaps x') (hy : y.SameUpToSwaps y') :
    (Term.binary op x y).SameUpToSwaps (.binary op x' y') :=
  (Relation.ReflTransGen.lift (Term.binary op · y) (fun _ _ => Swap.left op y) _ _ hx).trans
    (Relation.ReflTransGen.lift (Term.binary op x') (fun _ _ => Swap.right op x') _ _ hy)

theorem crossed {op : Binary} (hop : op.commutative) (hx : x.SameUpToSwaps y')
    (hy : y.SameUpToSwaps x') : (Term.binary op x y).SameUpToSwaps (.binary op x' y') :=
  (binary op hx hy).tail (.operands _ _ hop)

end SameUpToSwaps

variable {e : Term C}

theorem sameUpToSwaps_const_iff {c : C} : (const c).SameUpToSwaps e ↔ e = const c := by
  refine ⟨fun h => ?_, fun h => h ▸ .refl _⟩
  induction h with
  | refl => rfl
  | tail _ hswap ih =>
    subst ih
    cases hswap

theorem sameUpToSwaps_symbol_iff {id : Nat} : (symbol id).SameUpToSwaps e ↔ e = symbol id := by
  refine ⟨fun h => ?_, fun h => h ▸ .refl _⟩
  induction h with
  | refl => rfl
  | tail _ hswap ih =>
    subst ih
    cases hswap

/-- Swaps below a unary operation are swaps of its operand. -/
theorem sameUpToSwaps_unary_iff {op : Unary} {x : Term C} :
    (unary op x).SameUpToSwaps e ↔ ∃ x', e = unary op x' ∧ x.SameUpToSwaps x' := by
  constructor
  · intro h
    induction h with
    | refl => exact ⟨x, rfl, .refl x⟩
    | tail _ hswap ih =>
      obtain ⟨x', rfl, hx⟩ := ih
      cases hswap with
      | unary _ hx' => exact ⟨_, rfl, hx.tail hx'⟩
  · rintro ⟨x', rfl, hx⟩
    exact .unary op hx

/-- However often the operands of an operation change places, in the end they stand as they did, or
the other way round. -/
theorem sameUpToSwaps_binary_iff {op : Binary} {x y : Term C} :
    (binary op x y).SameUpToSwaps e ↔ ∃ x' y', e = binary op x' y' ∧
      (x.SameUpToSwaps x' ∧ y.SameUpToSwaps y' ∨
        op.commutative ∧ x.SameUpToSwaps y' ∧ y.SameUpToSwaps x') := by
  constructor
  · intro h
    induction h with
    | refl => exact ⟨x, y, rfl, .inl ⟨.refl x, .refl y⟩⟩
    | tail _ hswap ih =>
      obtain ⟨x', y', rfl, hxy⟩ := ih
      cases hswap with
      | operands _ _ hop =>
        refine ⟨y', x', rfl, ?_⟩
        rcases hxy with hxy | ⟨-, hxy⟩
        · exact .inr ⟨hop, hxy⟩
        · exact .inl hxy
      | left _ _ hx' =>
        refine ⟨_, y', rfl, ?_⟩
        rcases hxy with ⟨hx, hy⟩ | ⟨hop, hx, hy⟩
        · exact .inl ⟨hx.tail hx', hy⟩
        · exact .inr ⟨hop, hx, hy.tail hx'⟩
      | right _ _ hy' =>
        refine ⟨x', _, rfl, ?_⟩
        rcases hxy with ⟨hx, hy⟩ | ⟨hop, hx, hy⟩
        · exact .inl ⟨hx, hy.tail hy'⟩
        · exact .inr ⟨hop, hx.tail hy', hy⟩
  · rintro ⟨x', y', rfl, ⟨hx, hy⟩ | ⟨hop, hx, hy⟩⟩
    · exact .binary op hx hy
    · exact .crossed hop hx hy

end Term

/-! ## The comparison of nodes -/

namespace Node

/-- The term of a node, in which `key` stands for a constant. -/
def term (key : K → C) : Node K → Term C
  | const _ v => .const (key v)
  | symbol id _ => .symbol id
  | unary _ u x => .unary u (x.term key)
  | binary _ op x y => .binary op (x.term key) (y.term key)

/-- The number of levels below a node. -/
def height : Node K → Nat
  | const _ _ | symbol _ _ => 0
  | unary _ _ x => x.height + 1
  | binary _ _ x y => max x.height y.height + 1

section Comparison

variable [Scalar K] {x y x' y' : Node K} {i j depth : Nat}

theorem equalUpTo_of_id (h : x.id = y.id) : x.equalUpTo depth y := by
  cases depth <;> simp [equalUpTo, same, h]

theorem equalUpTo_const {v w : K} (h : Scalar.identical v w) :
    (const i v).equalUpTo (depth + 1) (const j w) := by
  simp [equalUpTo, h]

theorem equalUpTo_unary {u : Unary} (h : x.equalUpTo depth x') :
    (unary i u x).equalUpTo (depth + 1) (unary j u x') := by
  simp [equalUpTo, h]

theorem equalUpTo_binary {op : Binary}
    (h : x.equalUpTo depth x' ∧ y.equalUpTo depth y' ∨
      op.commutative ∧ x.equalUpTo depth y' ∧ y.equalUpTo depth x') :
    (binary i op x y).equalUpTo (depth + 1) (binary j op x' y') := by
  rcases h with h | h <;> simp [equalUpTo, h]

/-- What is equal stays so if more levels are looked at. -/
theorem equalUpTo_succ : ∀ {depth : Nat} {x y : Node K}, x.equalUpTo depth y →
    x.equalUpTo (depth + 1) y
  | 0, x, y, h => equalUpTo_of_id (by simpa [equalUpTo, same] using h)
  | depth + 1, x, y, h => by
    rcases equalUpTo_succ_cases h with he | ⟨i, j, v, w, rfl, rfl, he⟩ |
      ⟨i, j, u, a, c, rfl, rfl, he⟩ | ⟨i, j, op, a, a', c, c', rfl, rfl, he⟩
    · exact equalUpTo_of_id he
    · exact equalUpTo_const he
    · exact equalUpTo_unary (equalUpTo_succ he)
    · refine equalUpTo_binary ?_
      rcases he with ⟨he, he'⟩ | ⟨hop, he, he'⟩
      · exact .inl ⟨equalUpTo_succ he, equalUpTo_succ he'⟩
      · exact .inr ⟨hop, equalUpTo_succ he, equalUpTo_succ he'⟩

variable {key : K → C} (hkey : ∀ v w : K, Scalar.identical v w ↔ key v = key w) {G : Graph K}
include hkey

theorem equalUpTo_symm : ∀ {depth : Nat} {x y : Node K}, x.equalUpTo depth y → y.equalUpTo depth x
  | 0, x, y, h => by
    have hid : x.id = y.id := by simpa [equalUpTo, same] using h
    exact equalUpTo_of_id hid.symm
  | depth + 1, x, y, h => by
    rcases equalUpTo_succ_cases h with he | ⟨i, j, v, w, rfl, rfl, he⟩ |
      ⟨i, j, u, a, c, rfl, rfl, he⟩ | ⟨i, j, op, a, a', c, c', rfl, rfl, he⟩
    · exact equalUpTo_of_id he.symm
    · exact equalUpTo_const ((hkey w v).2 ((hkey v w).1 he).symm)
    · exact equalUpTo_unary (equalUpTo_symm he)
    · refine equalUpTo_binary ?_
      rcases he with ⟨he, he'⟩ | ⟨hop, he, he'⟩
      · exact .inl ⟨equalUpTo_symm he, equalUpTo_symm he'⟩
      · exact .inr ⟨hop, equalUpTo_symm he', equalUpTo_symm he⟩

/-- A swap after a swap is none, and one with a straight comparison before or after it is one. -/
theorem equalUpTo_trans : ∀ {depth : Nat} {x y z : Node K}, x ∈ G → y ∈ G → z ∈ G →
    x.equalUpTo depth y → y.equalUpTo depth z → x.equalUpTo depth z
  | 0, x, y, z, _, _, _, h, h' => by
    simp only [equalUpTo, same, beq_iff_eq] at h h' ⊢
    exact h.trans h'
  | depth + 1, x, y, z, hx, hy, hz, h, h' => by
    rcases equalUpTo_succ_cases h with he | ⟨i, j, v, w, rfl, rfl, he⟩ |
      ⟨i, j, u, a, c, rfl, rfl, he⟩ | ⟨i, j, op, a, a', c, c', rfl, rfl, he⟩
    · rwa [G.eq_of_id hx hy he]
    -- The second node is known, so only the comparison of its own kind is left for the third.
    all_goals
      rcases equalUpTo_succ_cases h' with hid | ⟨_, k, _, w', hyz, rfl, he'⟩ |
        ⟨_, k, _, _, e, hyz, rfl, he'⟩ | ⟨_, k, _, _, _, e, e', hyz, rfl, he'⟩
      · rwa [← G.eq_of_id hy hz hid]
      all_goals cases hyz
    · exact equalUpTo_const ((hkey v w').2 (((hkey v w).1 he).trans ((hkey w w').1 he')))
    · exact equalUpTo_unary (equalUpTo_trans (Graph.mem_of_unary hx) (Graph.mem_of_unary hy)
        (Graph.mem_of_unary hz) he he')
    · have ha := Graph.mem_left hx
      have ha' := Graph.mem_right hx
      have hc := Graph.mem_left hy
      have hc' := Graph.mem_right hy
      have he₁ := Graph.mem_left hz
      have he₂ := Graph.mem_right hz
      refine equalUpTo_binary ?_
      rcases he with ⟨h₁, h₂⟩ | ⟨hop, h₁, h₂⟩ <;> rcases he' with ⟨h₁', h₂'⟩ | ⟨hop, h₁', h₂'⟩
      · exact .inl ⟨equalUpTo_trans ha hc he₁ h₁ h₁', equalUpTo_trans ha' hc' he₂ h₂ h₂'⟩
      · exact .inr ⟨hop, equalUpTo_trans ha hc he₂ h₁ h₁', equalUpTo_trans ha' hc' he₁ h₂ h₂'⟩
      · exact .inr ⟨hop, equalUpTo_trans ha hc' he₂ h₁ h₂', equalUpTo_trans ha' hc he₁ h₂ h₁'⟩
      · exact .inl ⟨equalUpTo_trans ha hc' he₁ h₁ h₂', equalUpTo_trans ha' hc he₂ h₂ h₁'⟩

/-- What is equal is the same up to swaps. -/
theorem sameUpToSwaps_of_equalUpTo : ∀ {depth : Nat} {x y : Node K}, x ∈ G → y ∈ G →
    x.equalUpTo depth y → (x.term key).SameUpToSwaps (y.term key)
  | 0, x, y, hx, hy, h => by
    rw [G.eq_of_id hx hy (by simpa [equalUpTo, same] using h)]
    exact .refl _
  | depth + 1, x, y, hx, hy, h => by
    rcases equalUpTo_succ_cases h with he | ⟨i, j, v, w, rfl, rfl, he⟩ |
      ⟨i, j, u, a, c, rfl, rfl, he⟩ | ⟨i, j, op, a, a', c, c', rfl, rfl, he⟩
    · rw [G.eq_of_id hx hy he]
      exact .refl _
    · rw [term, term, (hkey v w).1 he]
      exact .refl _
    · exact .unary u (sameUpToSwaps_of_equalUpTo (Graph.mem_of_unary hx) (Graph.mem_of_unary hy) he)
    · rcases he with ⟨he, he'⟩ | ⟨hop, he, he'⟩
      · exact .binary op
          (sameUpToSwaps_of_equalUpTo (Graph.mem_left hx) (Graph.mem_left hy) he)
          (sameUpToSwaps_of_equalUpTo (Graph.mem_right hx) (Graph.mem_right hy) he')
      · exact .crossed hop
          (sameUpToSwaps_of_equalUpTo (Graph.mem_left hx) (Graph.mem_right hy) he)
          (sameUpToSwaps_of_equalUpTo (Graph.mem_right hx) (Graph.mem_left hy) he')

/-- What is the same up to swaps is equal to a depth that is greater than the height. -/
theorem equalUpTo_of_sameUpToSwaps : ∀ {depth : Nat} {x y : Node K}, x.height < depth →
    (x.term key).SameUpToSwaps (y.term key) → x.equalUpTo depth y
  | 0, x, y, hdepth, _ => absurd hdepth (Nat.not_lt_zero _)
  | depth + 1, .const i v, y, _, h => by
    have hy := Term.sameUpToSwaps_const_iff.1 h
    cases y with
    | const j w => exact equalUpTo_const ((hkey v w).2 (Term.const.inj hy).symm)
    | _ => cases hy
  | depth + 1, .symbol i s, y, _, h => by
    have hy := Term.sameUpToSwaps_symbol_iff.1 h
    cases y with
    | symbol j s' => exact equalUpTo_of_id (Term.symbol.inj hy).symm
    | _ => cases hy
  | depth + 1, .unary i u x, y, hdepth, h => by
    obtain ⟨x', hy, hx⟩ := Term.sameUpToSwaps_unary_iff.1 h
    cases y with
    | unary j u' a =>
      obtain ⟨rfl, rfl⟩ := Term.unary.inj hy
      exact equalUpTo_unary (equalUpTo_of_sameUpToSwaps (Nat.lt_of_succ_lt_succ hdepth) hx)
    | _ => cases hy
  | depth + 1, .binary i op x x', y, hdepth, h => by
    obtain ⟨a, a', hy, hxy⟩ := Term.sameUpToSwaps_binary_iff.1 h
    cases y with
    | binary j op' c c' =>
      obtain ⟨rfl, rfl, rfl⟩ := Term.binary.inj hy
      obtain ⟨hlt, hlt'⟩ := max_lt_iff.1 (Nat.lt_of_succ_lt_succ hdepth)
      refine equalUpTo_binary ?_
      rcases hxy with ⟨hx, hx'⟩ | ⟨hop, hx, hx'⟩
      · exact .inl ⟨equalUpTo_of_sameUpToSwaps hlt hx, equalUpTo_of_sameUpToSwaps hlt' hx'⟩
      · exact .inr ⟨hop, equalUpTo_of_sameUpToSwaps hlt hx, equalUpTo_of_sameUpToSwaps hlt' hx'⟩
    | _ => cases hy

end Comparison

/-! ## Floating point constants -/

/-- Constants are told apart by their bits. -/
theorem identical_iff_toBits (v w : Float) : Scalar.identical v w ↔ v.toBits = w.toBits :=
  beq_iff_eq

/-- Equality up to a depth, on the nodes of a graph with floating point constants, is an equivalence
at every depth, and what is equal stays so at the next one. At a depth greater than the heights of
two nodes it is sameness up to swaps, where constants are told apart by their bits and symbols by
their numbers. At any depth, equal nodes have one value in every model in which the commutative
operations commute. -/
theorem equalUpTo_approximates (G : Graph Float) :
    (∀ depth, Equivalence fun x y : {n // n ∈ G} => x.1.equalUpTo depth y.1) ∧
    (∀ depth, ∀ x ∈ G, ∀ y ∈ G, x.equalUpTo depth y → x.equalUpTo (depth + 1) y) ∧
    (∀ depth, ∀ x ∈ G, ∀ y ∈ G, x.height < depth → y.height < depth →
      (x.equalUpTo depth y ↔ (x.term Float.toBits).SameUpToSwaps (y.term Float.toBits))) ∧
    ∀ depth, ∀ x ∈ G, ∀ y ∈ G, x.equalUpTo depth y →
      ∀ (A : Type) (M : Model Float A), M.Commutes →
        ∀ env : Nat → A, M.value env x = M.value env y := by
  refine ⟨fun depth => ⟨fun x => equalUpTo_of_id rfl, equalUpTo_symm identical_iff_toBits,
    fun {x y z} => equalUpTo_trans identical_iff_toBits x.2 y.2 z.2⟩, ?_, ?_, ?_⟩
  · intro depth x _ y _ h
    exact equalUpTo_succ h
  · intro depth x hx y hy hdepth _
    exact ⟨sameUpToSwaps_of_equalUpTo identical_iff_toBits hx hy,
      equalUpTo_of_sameUpToSwaps identical_iff_toBits hdepth⟩
  · intro depth x hx y hy h A M hM env
    exact hM.value_of_equalUpTo env depth hx hy h

/-! ## A sum and its mirror image

A product and a constant are added; in the mirror image of the sum, all operands have changed places
and the constant is another node. -/

namespace CrossedSum

def x : Node Float := .symbol 1 "x"
def y : Node Float := .symbol 2 "y"
def product : Node Float := .binary 3 .mul x y
def three : Node Float := .const 4 3
def sum : Node Float := .binary 5 .add product three
def product' : Node Float := .binary 6 .mul y x
def three' : Node Float := .const 7 3
def sum' : Node Float := .binary 8 .add three' product'

def nodes : List (Node Float) :=
  [x, y, product, three, sum, product', three', sum']

def graph : Graph Float :=
  .ofList nodes
    (by simp [nodes, x, y, product, three, sum, product', three', sum', operands]) (by decide)

/-- The number of leaves, wherever they stand. -/
def leaves : Model Float Nat where
  const _ := 1
  unary _ a := a
  binary _ a b := a + b

theorem commutes_leaves : leaves.Commutes :=
  fun _ _ a b => Nat.add_comm a b

end CrossedSum

/-- The comparison of the two sums needs two levels, which are all that they have. -/
theorem equalUpTo_approximates_crossedSum :
    CrossedSum.sum ∈ CrossedSum.graph ∧ CrossedSum.sum' ∈ CrossedSum.graph ∧
      CrossedSum.sum.height < 3 ∧ CrossedSum.sum'.height < 3 ∧
      ¬CrossedSum.sum.equalUpTo 1 CrossedSum.sum' ∧ CrossedSum.sum.equalUpTo 2 CrossedSum.sum' ∧
      CrossedSum.sum'.equalUpTo 3 CrossedSum.sum ∧
      (CrossedSum.sum.term Float.toBits).SameUpToSwaps (CrossedSum.sum'.term Float.toBits) ∧
      CrossedSum.leaves.Commutes ∧
      CrossedSum.leaves.value (fun i => i) CrossedSum.sum =
        CrossedSum.leaves.value (fun i => i) CrossedSum.sum' := by
  have hsum : CrossedSum.sum ∈ CrossedSum.graph := List.mem_of_getElem? (i := 4) rfl
  have hsum' : CrossedSum.sum' ∈ CrossedSum.graph := List.mem_of_getElem? (i := 7) rfl
  have hnot : ¬CrossedSum.sum.equalUpTo 1 CrossedSum.sum' := by decide
  have htwo : CrossedSum.sum.equalUpTo 2 CrossedSum.sum' := by rfl
  obtain ⟨hequiv, hmono, hswaps, hvalue⟩ := equalUpTo_approximates CrossedSum.graph
  have hthree := hmono 2 _ hsum _ hsum' htwo
  exact ⟨hsum, hsum', by decide, by decide, hnot, htwo,
    (hequiv 3).symm (x := ⟨_, hsum⟩) (y := ⟨_, hsum'⟩) hthree,
    (hswaps 3 _ hsum _ hsum' (by decide) (by decide)).1 hthree, CrossedSum.commutes_leaves,
    hvalue 2 _ hsum _ hsum' htwo Nat _ CrossedSum.commutes_leaves _⟩

end Node

end Tangent
