import Tangent.Proofs.Freeze
import Tangent.Proofs.Values
import Tangent.Tape.Masks

/-!
# Masks show what depends on what

A position of a tape needs another one if it can be read from it, in any number of steps
(`Tape.Needs`). Masks that are passed forward hold a seed at a position exactly if the position
needs an input with that seed (`Layout.holds_forwardMasks`), and masks that are passed backward hold
it at an input exactly if an output with that seed needs the input (`Layout.holds_spreadAll`).

Forward, a mask is final as soon as it is there. Backward, masks grow and are moved away : after the
sweep has passed the positions from `k` on, the mask at a position before `k` holds the seeds of the
position itself, and those that a position from `k` on which reads it has been given.

The positions that a node needs are those of the nodes that it reaches
(`Layout.needs_iff_reaches`), so the masks show as well which nodes reach which.
-/

namespace Tangent

variable {K : Type}

/-! ## Masks as sets -/

namespace Mask

/-- The seed is in the mask. -/
def holds (m : Mask) (b : Nat) : Bool :=
  m.toBitVec.getLsbD b

@[simp] theorem holds_zero (b : Nat) : holds 0 b = false := by
  simp [holds]

@[simp] theorem holds_or (m n : Mask) (b : Nat) : (m ||| n).holds b = (m.holds b || n.holds b) := by
  simp [holds]

theorem toNat_ofNat_mod {b : Nat} (hb : b < width) :
    ((UInt64.ofNat b).toBitVec % 64).toNat = b := by
  have hb : b < 64 := hb
  simp
  omega

/-- The mask of one seed holds this seed alone. -/
theorem holds_shiftLeft {b : Nat} (hb : b < width) (c : Nat) :
    holds (1 <<< UInt64.ofNat b) c = decide (c = b) := by
  rw [holds, UInt64.toBitVec_shiftLeft, BitVec.shiftLeft_eq', toNat_ofNat_mod hb,
    BitVec.getLsbD_shiftLeft, UInt64.toBitVec_one, BitVec.getLsbD_one]
  have hb : b < 64 := hb
  grind

end Mask

namespace Step

/-- The mask of a step holds what the masks of its operands hold. -/
theorem holds_mask {w : Array Mask} {s : Step K} {b : Nat} :
    (s.mask w).holds b ↔ ∃ j ∈ s.operands, (w.getD j 0).holds b := by
  cases s <;> simp [mask, operands, Op.joinMasks]

theorem mask_congr {s : Step K} {w w' : Array Mask}
    (h : ∀ j ∈ s.operands, w.getD j 0 = w'.getD j 0) : s.mask w = s.mask w' := by
  cases s with
  | symbol name => rfl
  | const v => rfl
  | unary u x => simp only [mask, h x (by simp [operands])]
  | binary b x y => simp only [mask, h x (by simp [operands]), h y (by simp [operands])]

theorem size_spread (w : Array Mask) (i : Nat) (s : Step K) : (s.spread w i).size = w.size := by
  unfold spread
  split_ifs
  · rfl
  · cases s <;> simp

theorem holds_modify {w : Array Mask} {x : Nat} (hx : x < w.size) (m : Mask) (p b : Nat) :
    ((w.modify x (· ||| m)).getD p 0).holds b ↔ (w.getD p 0).holds b ∨ p = x ∧ m.holds b := by
  rw [Array.getD_eq_getD_getElem?, Array.getElem?_modify, Array.getD_eq_getD_getElem?]
  split_ifs with h
  · subst h
    simp [hx]
  · simp [Ne.symm h]

theorem getD_setIfInBounds_of_ne {w : Array Mask} {i p : Nat} (h : p ≠ i) (m : Mask) :
    (w.setIfInBounds i m).getD p 0 = w.getD p 0 := by
  simp [Ne.symm h]

/-- A step adds its mask to those of its operands. What becomes of its own mask is left open, unless
it has no operands. -/
theorem holds_spread {w : Array Mask} {i p : Nat} {s : Step K} {b : Nat}
    (hs : ∀ j ∈ s.operands, j < w.size) (hp : p ≠ i ∨ s.operands = []) :
    ((s.spread w i).getD p 0).holds b ↔
      (w.getD p 0).holds b ∨ p ∈ s.operands ∧ (w.getD i 0).holds b := by
  unfold spread
  split_ifs with hzero
  · simp [hzero]
  · cases s with
    | symbol name => simp [operands]
    | const v => simp [operands]
    | unary u x =>
      have hp : p ≠ i := hp.resolve_right (by simp [operands])
      have hx : x < w.size := hs x (by simp [operands])
      rw [getD_setIfInBounds_of_ne hp, holds_modify hx]
      simp [operands, Op.spreadMask]
    | binary op x y =>
      have hp : p ≠ i := hp.resolve_right (by simp [operands])
      have hx : x < w.size := hs x (by simp [operands])
      have hy : y < w.size := hs y (by simp [operands])
      rw [getD_setIfInBounds_of_ne hp, holds_modify (by simpa using hy), holds_modify hx]
      simp [operands, Op.spreadMask, or_assoc, or_and_right]

end Step

/-! ## What a position needs -/

namespace Tape

variable {t : Tape K} {openEnded : Bool} {G : Graph K}

/-- The step at the first position reads the second one. -/
def Reads (t : Tape K) (i j : Nat) : Prop :=
  ∃ s, t.steps[i]? = some s ∧ j ∈ s.operands

/-- The second position is read from the first one, in any number of steps. -/
def Needs (t : Tape K) : Nat → Nat → Prop :=
  Relation.ReflTransGen t.Reads

theorem needs_iff_head {i j : Nat} : t.Needs i j ↔ j = i ∨ ∃ k, t.Reads i k ∧ t.Needs k j := by
  unfold Needs
  rw [Relation.ReflTransGen.cases_head_iff, eq_comm]

theorem needs_iff_tail {i j : Nat} : t.Needs i j ↔ j = i ∨ ∃ k, t.Needs i k ∧ t.Reads k j := by
  unfold Needs
  rw [Relation.ReflTransGen.cases_tail_iff]

theorem reads_iff {i j : Nat} :
    t.Reads i j ↔ ∃ n, t.nodes[i]? = some n ∧ ∃ x ∈ n.operands, t.position x = j := by
  simp [Reads, steps]

/-- The masks at all positions, from those of the inputs. -/
def forwardMasks (t : Tape K) (masks : List (List Mask)) : Array Mask :=
  Step.maskAll (t.steps.drop t.width) masks.flatten.toArray

namespace Layout

theorem lt_of_reads (h : t.Layout openEnded) {i j : Nat} (hr : t.Reads i j) : j < i := by
  obtain ⟨s, hs, hj⟩ := hr
  exact h.operand_lt hs hj

theorem not_reads_input (h : t.Layout openEnded) {i j : Nat} (hi : i < t.width) :
    ¬t.Reads i j := by
  rw [reads_iff]
  rintro ⟨n, hn, x, hx, -⟩
  rw [h.getElem?_input hi] at hn
  rw [Node.operands_of_isSymbol (h.symbols n (List.mem_of_getElem? hn))] at hx
  cases hx

/-- In a graph, the positions that a node needs are those of the nodes that it reaches. -/
theorem needs_iff_reaches (h : t.Layout openEnded) (hG : ∀ n ∈ t.nodes, n ∈ G) {i j : Nat}
    {n x : Node K} (hn : t.nodes[i]? = some n) (hx : t.nodes[j]? = some x) :
    t.Needs i j ↔ n.Reaches x := by
  constructor
  · intro hneeds
    induction hneeds using Relation.ReflTransGen.head_induction_on generalizing n with
    | refl =>
      obtain rfl : n = x := Option.some_inj.1 (hn.symm.trans hx)
      exact .refl n
    | head hread _ ih =>
      obtain ⟨m, hm, y, hy, rfl⟩ := reads_iff.1 hread
      obtain rfl : n = m := Option.some_inj.1 (hn.symm.trans hm)
      exact .head hy (ih (h.getElem?_operand_of_graph hG hn hy).2)
  · intro hreach
    induction hreach using Relation.ReflTransGen.head_induction_on generalizing i with
    | refl =>
      have hi := (List.getElem?_eq_some_iff.1 hn).1
      rw [(List.getElem?_inj hi (h.nodup.of_map _)).1 (hn.trans hx.symm)]
      exact Relation.ReflTransGen.refl
    | head hy _ ih =>
      exact Relation.ReflTransGen.head (reads_iff.2 ⟨_, hn, _, hy, rfl⟩)
        (ih (h.getElem?_operand_of_graph hG hn hy).2)

/-! ## The sweeps -/

/-- Passed forward, masks hold a seed wherever an input with it is needed. -/
theorem holds_forwardMasks (h : t.Layout openEnded) {masks : List (List Mask)}
    (hmasks : masks.map List.length = t.inputs.map (·.nnz)) (b : Nat) {i : Nat}
    (hi : i < t.steps.length) :
    ((t.forwardMasks masks).getD i 0).holds b ↔
      ∃ p m, t.Needs i p ∧ masks.flatten[p]? = some m ∧ m.holds b := by
  have hrow := length_flatten_args hmasks
  induction i using Nat.strongRecOn with
  | ind i ih =>
  rcases Nat.lt_or_ge i t.width with hlt | hge
  · have hneeds : ∀ p, t.Needs i p ↔ p = i := fun p => by
      rw [needs_iff_head, or_iff_left]
      rintro ⟨k, hk, -⟩
      exact h.not_reads_input hlt hk
    have hget : (t.forwardMasks masks)[i]? = masks.flatten[i]? :=
      getElem?_pushAll_input hrow hlt
    obtain ⟨m, hm⟩ : ∃ m, masks.flatten[i]? = some m :=
      ⟨_, List.getElem?_eq_getElem (hrow ▸ hlt)⟩
    simp [hneeds, hget, hm]
  · have hs : t.steps[i]? = some t.steps[i] := List.getElem?_eq_getElem hi
    have hget : (t.forwardMasks masks).getD i 0 = t.steps[i].mask (t.forwardMasks masks) :=
      h.getD_pushAll_step Step.mask_congr hrow hge hs
    rw [hget, Step.holds_mask]
    constructor
    · rintro ⟨k, hk, hb⟩
      have hki := h.operand_lt hs hk
      obtain ⟨p, m, hneeds, hm⟩ := (ih k hki (Nat.lt_trans hki hi)).1 hb
      exact ⟨p, m, needs_iff_head.2 (Or.inr ⟨k, ⟨_, hs, hk⟩, hneeds⟩), hm⟩
    · rintro ⟨p, m, hneeds, hm, hb⟩
      rcases needs_iff_head.1 hneeds with rfl | ⟨k, ⟨s, hs', hk⟩, hneeds⟩
      · rw [List.getElem?_eq_none (by omega)] at hm
        cases hm
      · obtain rfl := Option.some_inj.1 (hs.symm.trans hs')
        have hki := h.operand_lt hs hk
        exact ⟨k, hk, (ih k hki (Nat.lt_trans hki hi)).2 ⟨p, m, hneeds, hm, hb⟩⟩

end Layout

/-- A position with the seed needs the given one. -/
def Seeded (t : Tape K) (w : Array Mask) (b i : Nat) : Prop :=
  ∃ q, (w.getD q 0).holds b ∧ t.Needs q i

theorem seeded_iff {w : Array Mask} {b i : Nat} :
    t.Seeded w b i ↔ (w.getD i 0).holds b ∨ ∃ r, t.Reads r i ∧ t.Seeded w b r := by
  constructor
  · rintro ⟨q, hq, hneeds⟩
    rcases needs_iff_tail.1 hneeds with rfl | ⟨r, hneeds, hr⟩
    · exact Or.inl hq
    · exact Or.inr ⟨r, hr, q, hq, hneeds⟩
  · rintro (hi | ⟨r, hr, q, hq, hneeds⟩)
    · exact ⟨i, hi, .refl⟩
    · exact ⟨q, hq, needs_iff_tail.2 (Or.inr ⟨r, hneeds, hr⟩)⟩

/-- The masks after the steps from position `k` on have passed theirs back. -/
def spreadFrom (t : Tape K) (w : Array Mask) (k : Nat) : Array Mask :=
  ((t.steps.drop k).zipIdx k).foldr (fun (s, i) w => s.spread w i) w

theorem spreadFrom_zero (t : Tape K) (w : Array Mask) :
    t.spreadFrom w 0 = Step.spreadAll t.steps w := rfl

theorem spreadFrom_of_le (w : Array Mask) {k : Nat} (hk : t.steps.length ≤ k) :
    t.spreadFrom w k = w := by
  rw [spreadFrom, List.drop_eq_nil_of_le hk]
  rfl

theorem spreadFrom_of_getElem? (w : Array Mask) {k : Nat} {s : Step K}
    (hs : t.steps[k]? = some s) : t.spreadFrom w k = s.spread (t.spreadFrom w (k + 1)) k := by
  obtain ⟨hk, rfl⟩ := List.getElem?_eq_some_iff.1 hs
  rw [spreadFrom, List.drop_eq_getElem_cons hk, List.zipIdx_cons, List.foldr_cons, spreadFrom]

theorem size_spreadFrom (w : Array Mask) (k : Nat) : (t.spreadFrom w k).size = w.size := by
  rw [spreadFrom]
  induction (t.steps.drop k).zipIdx k with
  | nil => rfl
  | cons s steps ih => rw [List.foldr_cons, Step.size_spread, ih]

/-- After the steps from `k` on, the mask of an earlier position, or of one without operands, holds
the seeds that it had and those that the steps from `k` on which read it have been given. -/
theorem Layout.holds_spreadFrom (h : t.Layout openEnded) {w : Array Mask}
    (hw : w.size = t.steps.length) (b : Nat) {k p : Nat} (hp : p < k ∨ ∀ j, ¬t.Reads p j) :
    ((t.spreadFrom w k).getD p 0).holds b ↔
      (w.getD p 0).holds b ∨ ∃ r, k ≤ r ∧ t.Reads r p ∧ t.Seeded w b r := by
  induction hd : t.steps.length - k generalizing k p with
  | zero =>
    rw [t.spreadFrom_of_le w (by omega), or_iff_left]
    rintro ⟨r, hr, ⟨s, hs, -⟩, -⟩
    have := (List.getElem?_eq_some_iff.1 hs).1
    omega
  | succ d ih =>
    have hk : k < t.steps.length := by omega
    have hs : t.steps[k]? = some t.steps[k] := List.getElem?_eq_getElem hk
    have hoperand : ∀ j ∈ t.steps[k].operands, j < (t.spreadFrom w (k + 1)).size := by
      intro j hj
      have := h.operand_lt hs hj
      rw [size_spreadFrom, hw]
      omega
    have hself : p ≠ k ∨ t.steps[k].operands = [] := by
      by_cases hpk : p = k
      · subst hpk
        refine Or.inr (List.eq_nil_iff_forall_not_mem.2 fun j hj => ?_)
        exact (hp.resolve_left (Nat.lt_irrefl p)) j ⟨_, hs, hj⟩
      · exact Or.inl hpk
    have hk' : ((t.spreadFrom w (k + 1)).getD k 0).holds b ↔ t.Seeded w b k := by
      rw [ih (Or.inl (Nat.lt_succ_self k)) (by omega), seeded_iff]
      exact or_congr_right (exists_congr fun r =>
        ⟨fun hr => hr.2, fun hr => ⟨h.lt_of_reads hr.1, hr⟩⟩)
    rw [t.spreadFrom_of_getElem? w hs, Step.holds_spread hoperand hself,
      ih (hp.imp_left Nat.lt_succ_of_lt) (by omega), hk', or_assoc]
    refine or_congr_right ⟨?_, ?_⟩
    · rintro (⟨r, hr, hread⟩ | ⟨hmem, hseeded⟩)
      · exact ⟨r, Nat.le_of_succ_le hr, hread⟩
      · exact ⟨k, Nat.le_refl k, ⟨_, hs, hmem⟩, hseeded⟩
    · rintro ⟨r, hr, hread⟩
      rcases Nat.eq_or_lt_of_le hr with rfl | hr
      · obtain ⟨⟨s, hs', hmem⟩, hseeded⟩ := hread
        obtain rfl := Option.some_inj.1 (hs.symm.trans hs')
        exact Or.inr ⟨hmem, hseeded⟩
      · exact Or.inl ⟨r, hr, hread⟩

/-- Passed backward, masks hold a seed at an input if a position with the seed needs the input. -/
theorem Layout.holds_spreadAll (h : t.Layout openEnded) {w : Array Mask}
    (hw : w.size = t.steps.length) (b : Nat) {p : Nat} (hp : p < t.width) :
    ((Step.spreadAll t.steps w).getD p 0).holds b ↔ t.Seeded w b p := by
  rw [← spreadFrom_zero, h.holds_spreadFrom hw b (Or.inr fun j => h.not_reads_input hp), seeded_iff]
  simp

/-- Masks that are added to positions hold what one of those added there holds. -/
theorem holds_foldl_modify {b p : Nat} :
    ∀ (seeds : List (Nat × Mask)) {w : Array Mask}, (∀ s ∈ seeds, s.1 < w.size) →
      (((seeds.foldl (fun w (i, m) => w.modify i (· ||| m)) w).getD p 0).holds b ↔
        (w.getD p 0).holds b ∨ ∃ m, (p, m) ∈ seeds ∧ m.holds b)
  | [], w, _ => by simp
  | (i, m) :: seeds, w, hlt => by
    have hi : i < w.size := hlt (i, m) List.mem_cons_self
    have hrest : ∀ s ∈ seeds, s.1 < (w.modify i (· ||| m)).size := fun s hs => by
      simpa using hlt s (List.mem_cons_of_mem _ hs)
    rw [List.foldl_cons, holds_foldl_modify seeds hrest, Step.holds_modify hi, or_assoc]
    simp [or_and_right, exists_or]

/-! ## The masks of nonzeros -/

/-- Item `k` of list `i`. -/
def item? {α : Type} (rows : List (List α)) (i k : Nat) : Option α :=
  rows[i]?.bind (·[k]?)

/-- Nonzero `k` of matrix `i`. -/
def nonzero? (matrices : List (SparseMatrix K)) (i k : Nat) : Option (Node K) :=
  item? (matrices.map (·.nonzeros)) i k

theorem nonzero?_eq_some {matrices : List (SparseMatrix K)} {i k : Nat} {n : Node K} :
    nonzero? matrices i k = some n ↔
      ∃ m, matrices[i]? = some m ∧ m.nonzeros[k]? = some n := by
  simp only [nonzero?, item?, List.getElem?_map]
  cases matrices[i]? <;> simp

/-- The seed is in mask `k` of list `i`. -/
def marked (masks : List (List Mask)) (i k b : Nat) : Bool :=
  (item? masks i k).any (·.holds b)

theorem marked_iff {masks : List (List Mask)} {i k b : Nat} :
    marked masks i k b ↔ ∃ m, item? masks i k = some m ∧ m.holds b := by
  simp [marked, Option.any_eq_true]

theorem item?_map_nonzeros {α : Type} (g : Node K → α) (matrices : List (SparseMatrix K))
    (i k : Nat) : item? (matrices.map (·.nonzeros.map g)) i k = (nonzero? matrices i k).map g := by
  simp only [item?, nonzero?, List.getElem?_map]
  cases matrices[i]? <;> simp

theorem map_length_nonzeros {α : Type} (g : Node K → α) (matrices : List (SparseMatrix K)) :
    (matrices.map (·.nonzeros.map g)).map List.length = matrices.map (·.nnz) := by
  simp [SparseMatrix.nnz, Function.comp_def]

/-- Lists of one shape go together item by item. -/
theorem mem_zip_flatten {α β : Type} {a : α} {b : β} :
    ∀ {xs : List (List α)} {ys : List (List β)}, xs.map List.length = ys.map List.length →
      ((a, b) ∈ xs.flatten.zip ys.flatten ↔
        ∃ i k, item? xs i k = some a ∧ item? ys i k = some b)
  | [], ys, _ => by simp [item?]
  | x :: xs, [], h => by simp at h
  | x :: xs, y :: ys, h => by
    simp only [List.map_cons, List.cons.injEq] at h
    rw [List.flatten_cons, List.flatten_cons, List.zip_append h.1, List.mem_append,
      mem_zip_flatten h.2, List.mem_iff_getElem?]
    simp only [List.getElem?_zip_eq_some]
    constructor
    · rintro (⟨k, hk⟩ | ⟨i, k, hik⟩)
      · exact ⟨0, k, hk⟩
      · exact ⟨i + 1, k, hik⟩
    · rintro ⟨_ | i, k, hik⟩
      · exact Or.inl ⟨k, hik⟩
      · exact Or.inr ⟨i, k, hik⟩

/-- The mask of one seed at nonzero `k` of matrix `i`, and empty masks elsewhere. -/
def seedAt (matrices : List (SparseMatrix K)) (i k b : Nat) : List (List Mask) :=
  matrices.zipIdx.map fun (m, j) => (List.range m.nnz).map fun l =>
    if j = i ∧ l = k then 1 <<< UInt64.ofNat b else 0

theorem map_length_seedAt (matrices : List (SparseMatrix K)) (i k b : Nat) :
    (seedAt matrices i k b).map List.length = matrices.map (·.nnz) := by
  have hlength : ∀ o, ((matrices.zipIdx o).map fun p => p.1.nnz) = matrices.map (·.nnz) := by
    intro o
    rw [← List.zipIdx_map_fst o matrices, List.map_map]
    simp [Function.comp_def]
  simpa [seedAt, Function.comp_def] using hlength 0

theorem item?_seedAt (matrices : List (SparseMatrix K)) (i k b j l : Nat) :
    item? (seedAt matrices i k b) j l =
      (nonzero? matrices j l).map fun _ => if j = i ∧ l = k then 1 <<< UInt64.ofNat b else 0 := by
  simp only [item?, nonzero?, seedAt, List.getElem?_map, List.getElem?_zipIdx]
  cases matrices[j]? with
  | none => rfl
  | some m =>
    rcases Nat.lt_or_ge l m.nonzeros.length with hl | hl
    · simp [SparseMatrix.nnz, hl]
    · simp [SparseMatrix.nnz, hl]

theorem marked_seedAt {matrices : List (SparseMatrix K)} {i k b : Nat} (hb : b < Mask.width)
    {n : Node K} (hn : nonzero? matrices i k = some n) (j l : Nat) :
    marked (seedAt matrices i k b) j l b ↔ j = i ∧ l = k := by
  rw [marked, item?_seedAt]
  by_cases hjl : j = i ∧ l = k
  · simp [hjl, hn, Mask.holds_shiftLeft hb]
  · cases nonzero? matrices j l <;> simp [hjl]

/-- Masks are passed forward. -/
theorem masksForward_eq {masks : List (List Mask)}
    (hmasks : masks.map List.length = t.inputs.map (·.nnz)) :
    t.masksForward masks = .ok (t.results.map (·.map ((t.forwardMasks masks).getD · 0))) := by
  have hshape : t.checkShape .input masks = .ok () := (t.checkShape_ok_iff .input masks).2 hmasks
  rw [masksForward, hshape]
  rfl

/-- The masks of the outputs, each at its position. -/
def startMasks (t : Tape K) (masks : List (List Mask)) : Array Mask :=
  (t.results.flatten.zip masks.flatten).foldl (fun w (i, m) => w.modify i (· ||| m))
    (Array.replicate t.nodes.length 0)

theorem masksBackward_eq {masks : List (List Mask)}
    (hmasks : masks.map List.length = t.outputs.map (·.nnz)) :
    t.masksBackward masks = .ok (t.inputs.map (·.nonzeros.map fun n =>
      (Step.spreadAll t.steps (t.startMasks masks)).getD (t.position n) 0)) := by
  have hshape : t.checkShape .output masks = .ok () := (t.checkShape_ok_iff .output masks).2 hmasks
  rw [masksBackward, hshape]
  rfl

theorem size_startMasks (t : Tape K) (masks : List (List Mask)) :
    (t.startMasks masks).size = t.steps.length := by
  have hsize : ∀ (seeds : List (Nat × Mask)) (w : Array Mask),
      (seeds.foldl (fun w (i, m) => w.modify i (· ||| m)) w).size = w.size := by
    intro seeds
    induction seeds with
    | nil => exact fun w => rfl
    | cons s seeds ih => exact fun w => (ih _).trans (Array.size_modify ..)
  rw [startMasks, hsize, Array.size_replicate, length_steps]

theorem Layout.holds_startMasks (h : t.Layout openEnded) {masks : List (List Mask)}
    (hmasks : masks.map List.length = t.outputs.map (·.nnz)) (q b : Nat) :
    ((t.startMasks masks).getD q 0).holds b ↔
      ∃ j k n, nonzero? t.outputs j k = some n ∧ t.position n = q ∧ marked masks j k b := by
  have hshape : t.results.map List.length = masks.map List.length := by
    rw [hmasks, results, map_length_nonzeros]
  have hplace : ∀ j k, item? t.results j k = some q ↔
      ∃ n, nonzero? t.outputs j k = some n ∧ t.position n = q := fun j k => by
    rw [results, item?_map_nonzeros, Option.map_eq_some_iff]
  have hseeds : ∀ s ∈ t.results.flatten.zip masks.flatten,
      s.1 < (Array.replicate t.nodes.length (0 : Mask)).size := fun s hs => by
    rw [Array.size_replicate, ← length_steps]
    exact h.result_lt (List.of_mem_zip hs).1
  have hzero : ((Array.replicate t.nodes.length (0 : Mask)).getD q 0).holds b = false := by
    rw [Array.getD_eq_getD_getElem?, Array.getElem?_replicate]
    split <;> simp
  rw [startMasks, holds_foldl_modify _ hseeds, hzero]
  simp only [mem_zip_flatten hshape, hplace, marked_iff]
  constructor
  · rintro (hfalse | ⟨m, ⟨j, k, ⟨n, hn, hq⟩, hm⟩, hb⟩)
    · cases hfalse
    · exact ⟨j, k, n, hn, hq, m, hm, hb⟩
  · rintro ⟨j, k, n, hn, hq, m, hm, hb⟩
    exact Or.inr ⟨m, ⟨j, k, ⟨n, hn, hq⟩, hm⟩, hb⟩

theorem mem_flatten_of_item? {α : Type} {rows : List (List α)} {i k : Nat} {a : α}
    (h : item? rows i k = some a) : a ∈ rows.flatten := by
  obtain ⟨row, hrow, ha⟩ := Option.bind_eq_some_iff.1 h
  exact List.mem_flatten.2 ⟨row, List.mem_of_getElem? hrow, List.mem_of_getElem? ha⟩

theorem mem_nonzerosOf {matrices : List (SparseMatrix K)} {i k : Nat} {n : Node K}
    (h : nonzero? matrices i k = some n) : n ∈ nonzerosOf matrices :=
  mem_flatten_of_item? h

namespace Layout

/-- An output holds the seeds of the inputs that it reaches. -/
theorem holds_forward (h : t.Layout openEnded) (hG : ∀ n ∈ t.nodes, n ∈ G)
    {masks : List (List Mask)} (hmasks : masks.map List.length = t.inputs.map (·.nnz)) {n : Node K}
    (hn : n ∈ G) (hmet : met t.nodes n.id) (b : Nat) :
    ((t.forwardMasks masks).getD (t.position n) 0).holds b ↔
      ∃ i l x, nonzero? t.inputs i l = some x ∧ marked masks i l b ∧ n.Reaches x := by
  have hnode := getElem?_position_of_graph hG hn hmet
  have hlt := position_lt_of_met hmet
  have hshape : (t.inputs.map (·.nonzeros)).map List.length = masks.map List.length := by
    rw [hmasks, List.map_map]
    rfl
  rw [h.holds_forwardMasks hmasks b (by rwa [length_steps])]
  constructor
  · rintro ⟨p, m, hneeds, hm, hb⟩
    have hp : p < t.width := by
      rw [← length_flatten_args hmasks]
      exact (List.getElem?_eq_some_iff.1 hm).1
    obtain ⟨x, hx⟩ : ∃ x, (nonzerosOf t.inputs)[p]? = some x :=
      ⟨_, List.getElem?_eq_getElem (width_eq t ▸ hp)⟩
    have hreach := (h.needs_iff_reaches hG hnode ((h.getElem?_input hp).trans hx)).1 hneeds
    have hzip : (x, m) ∈ (t.inputs.map (·.nonzeros)).flatten.zip masks.flatten :=
      List.mem_of_getElem? (List.getElem?_zip_eq_some.2 ⟨hx, hm⟩)
    obtain ⟨i, l, hx, hm⟩ := (mem_zip_flatten hshape).1 hzip
    exact ⟨i, l, x, hx, marked_iff.2 ⟨m, hm, hb⟩, hreach⟩
  · rintro ⟨i, l, x, hx, hmark, hreach⟩
    obtain ⟨m, hm, hb⟩ := marked_iff.1 hmark
    obtain ⟨p, hp⟩ := List.mem_iff_getElem?.1 ((mem_zip_flatten hshape).2 ⟨i, l, hx, hm⟩)
    obtain ⟨hx, hm⟩ := List.getElem?_zip_eq_some.1 hp
    have hp : p < t.width := by
      rw [← length_flatten_args hmasks]
      exact (List.getElem?_eq_some_iff.1 hm).1
    exact ⟨p, m, (h.needs_iff_reaches hG hnode ((h.getElem?_input hp).trans hx)).2 hreach, hm, hb⟩

/-- An input holds the seeds of the outputs that reach it. -/
theorem holds_backward (h : t.Layout openEnded) (hG : ∀ n ∈ t.nodes, n ∈ G)
    (hout : ∀ n ∈ nonzerosOf t.outputs, n ∈ G) {masks : List (List Mask)}
    (hmasks : masks.map List.length = t.outputs.map (·.nnz)) {x : Node K}
    (hx : x ∈ nonzerosOf t.inputs) (b : Nat) :
    ((Step.spreadAll t.steps (t.startMasks masks)).getD (t.position x) 0).holds b ↔
      ∃ j k n, nonzero? t.outputs j k = some n ∧ marked masks j k b ∧ n.Reaches x := by
  obtain ⟨p, hp⟩ := List.mem_iff_getElem?.1 hx
  have hlt : p < t.width := width_eq t ▸ (List.getElem?_eq_some_iff.1 hp).1
  have hinput : t.nodes[p]? = some x := (h.getElem?_input hlt).trans hp
  have hneeds : ∀ {j k n}, nonzero? t.outputs j k = some n →
      (t.Needs (t.position n) p ↔ n.Reaches x) := fun hn =>
    have hmem := mem_nonzerosOf hn
    h.needs_iff_reaches hG
      (getElem?_position_of_graph hG (hout _ hmem) (h.outputs _ hmem)) hinput
  rw [h.position_input hp, h.holds_spreadAll (t.size_startMasks masks) b hlt, Seeded]
  simp only [h.holds_startMasks hmasks]
  constructor
  · rintro ⟨_, ⟨j, k, n, hn, rfl, hmark⟩, hq⟩
    exact ⟨j, k, n, hn, hmark, (hneeds hn).1 hq⟩
  · rintro ⟨j, k, n, hn, hmark, hreach⟩
    exact ⟨_, ⟨j, k, n, hn, rfl, hmark⟩, (hneeds hn).2 hreach⟩

/-- Masks for the inputs are passed to the outputs. -/
theorem masksForward_ok (h : t.Layout openEnded) (hG : ∀ n ∈ t.nodes, n ∈ G)
    (hout : ∀ n ∈ nonzerosOf t.outputs, n ∈ G) {masks : List (List Mask)}
    (hmasks : masks.map List.length = t.inputs.map (·.nnz)) :
    ∃ marks, t.masksForward masks = .ok marks ∧ marks.map List.length = t.outputs.map (·.nnz) ∧
      ∀ j k n, nonzero? t.outputs j k = some n → ∀ b, marked marks j k b ↔
        ∃ i l x, nonzero? t.inputs i l = some x ∧ marked masks i l b ∧ n.Reaches x := by
  have hmap : t.results.map (·.map ((t.forwardMasks masks).getD · 0)) =
      t.outputs.map (·.nonzeros.map fun n => (t.forwardMasks masks).getD (t.position n) 0) := by
    simp [results]
  refine ⟨_, hmap ▸ masksForward_eq hmasks, map_length_nonzeros _ _, fun j k n hn b => ?_⟩
  have hmem := mem_nonzerosOf hn
  rw [marked, item?_map_nonzeros, hn]
  exact h.holds_forward hG hmasks (hout n hmem) (h.outputs n hmem) b

/-- Masks for the outputs are passed to the inputs. -/
theorem masksBackward_ok (h : t.Layout openEnded) (hG : ∀ n ∈ t.nodes, n ∈ G)
    (hout : ∀ n ∈ nonzerosOf t.outputs, n ∈ G) {masks : List (List Mask)}
    (hmasks : masks.map List.length = t.outputs.map (·.nnz)) :
    ∃ marks, t.masksBackward masks = .ok marks ∧ marks.map List.length = t.inputs.map (·.nnz) ∧
      ∀ i l x, nonzero? t.inputs i l = some x → ∀ b, marked marks i l b ↔
        ∃ j k n, nonzero? t.outputs j k = some n ∧ marked masks j k b ∧ n.Reaches x := by
  refine ⟨_, masksBackward_eq hmasks, map_length_nonzeros _ _, fun i l x hx b => ?_⟩
  rw [marked, item?_map_nonzeros, hx]
  exact h.holds_backward hG hout hmasks (mem_nonzerosOf hx) b

end Layout

/-- Masks show exactly what the outputs reach. Passed forward, a seed comes to an output exactly if
the output reaches an input with that seed; passed backward, it comes to an input exactly if an
output with that seed reaches the input. So a seed at an input comes to an output exactly if one at
the output comes to the input. -/
theorem masks_exact [Numeral K] (G : Graph K) {openEnded : Bool} {name : String}
    {inputs outputs : List (SparseMatrix K)} {t : Tape K}
    (h : layOut openEnded name inputs outputs = .ok t) (hin : ∀ n ∈ nonzerosOf inputs, n ∈ G)
    (hout : ∀ n ∈ nonzerosOf outputs, n ∈ G) :
    (∀ masks : List (List Mask), masks.map List.length = inputs.map (·.nnz) →
      ∃ marks, t.masksForward masks = .ok marks ∧ marks.map List.length = outputs.map (·.nnz) ∧
        ∀ j k n, nonzero? outputs j k = some n → ∀ b, marked marks j k b ↔
          ∃ i l x, nonzero? inputs i l = some x ∧ marked masks i l b ∧ n.Reaches x) ∧
    (∀ masks : List (List Mask), masks.map List.length = outputs.map (·.nnz) →
      ∃ marks, t.masksBackward masks = .ok marks ∧ marks.map List.length = inputs.map (·.nnz) ∧
        ∀ i l x, nonzero? inputs i l = some x → ∀ b, marked marks i l b ↔
          ∃ j k n, nonzero? outputs j k = some n ∧ marked masks j k b ∧ n.Reaches x) ∧
    ∀ i l x j k n b, nonzero? inputs i l = some x → nonzero? outputs j k = some n →
      b < Mask.width → ∃ forth back, t.masksForward (seedAt inputs i l b) = .ok forth ∧
        t.masksBackward (seedAt outputs j k b) = .ok back ∧
          (marked forth j k b ↔ marked back i l b) ∧ (marked forth j k b ↔ n.Reaches x) := by
  have hlay := layout_of_layOut h
  obtain ⟨-, rfl, rfl, -⟩ := layOut_ok h
  have hG := hlay.mem_graph hin hout
  refine ⟨fun masks => hlay.masksForward_ok hG hout, fun masks => hlay.masksBackward_ok hG hout,
    fun i l x j k n b hx hn hb => ?_⟩
  obtain ⟨forth, hforth, -, hmarks⟩ :=
    hlay.masksForward_ok hG hout (map_length_seedAt t.inputs i l b)
  obtain ⟨back, hback, -, hmarks'⟩ :=
    hlay.masksBackward_ok hG hout (map_length_seedAt t.outputs j k b)
  have hforth' : marked forth j k b ↔ n.Reaches x := by
    simp only [hmarks j k n hn, marked_seedAt hb hx]
    refine ⟨?_, fun hreach => ⟨i, l, x, hx, ⟨rfl, rfl⟩, hreach⟩⟩
    rintro ⟨_, _, x', hx', ⟨rfl, rfl⟩, hreach⟩
    rwa [Option.some_inj.1 (hx.symm.trans hx')]
  have hback' : marked back i l b ↔ n.Reaches x := by
    simp only [hmarks' i l x hx, marked_seedAt hb hn]
    refine ⟨?_, fun hreach => ⟨j, k, n, hn, ⟨rfl, rfl⟩, hreach⟩⟩
    rintro ⟨_, _, n', hn', ⟨rfl, rfl⟩, hreach⟩
    rwa [Option.some_inj.1 (hn.symm.trans hn')]
  exact ⟨forth, back, hforth, hback, hforth'.trans hback'.symm, hforth'⟩

/-- In the diamond, the sum and the sine depend on both inputs. The output that is the first input
does not depend on the second one. -/
theorem masks_exact_diamond :
    (∀ n ∈ nonzerosOf Diamond.tape.inputs, n ∈ Diamond.graph) ∧
      (∀ n ∈ nonzerosOf Diamond.tape.outputs, n ∈ Diamond.graph) ∧
      freeze "diamond" Diamond.tape.inputs Diamond.tape.outputs = .ok Diamond.tape ∧
      Diamond.tape.masksForward [[1], [2]] = .ok [[3], [1], [3]] ∧
      Diamond.tape.masksBackward [[1], [2], [4]] = .ok [[7], [5]] ∧
      Diamond.sum.Reaches Diamond.y ∧ ¬Diamond.x.Reaches Diamond.y := by
  have hforward : Diamond.tape.masksForward [[1], [2]] = .ok [[3], [1], [3]] := by rfl
  have hseed : Diamond.tape.masksForward (seedAt Diamond.tape.inputs 1 0 5) =
    .ok [[32], [0], [32]] := by rfl
  obtain ⟨hforth, -, hpair⟩ := masks_exact Diamond.graph Diamond.freeze_eq Diamond.inputs_mem
    Diamond.outputs_mem
  refine ⟨Diamond.inputs_mem, Diamond.outputs_mem, Diamond.freeze_eq, hforward, by rfl, ?_, ?_⟩
  · obtain ⟨_, _, hmarks, -, -, hreach⟩ :=
      hpair 1 0 Diamond.y 0 0 Diamond.sum 5 rfl rfl (by decide)
    obtain rfl := Except.ok.inj (hseed.symm.trans hmarks)
    exact hreach.1 (by decide)
  · obtain ⟨_, hmarks, -, hreach⟩ := hforth [[1], [2]] rfl
    obtain rfl := Except.ok.inj (hforward.symm.trans hmarks)
    intro hxy
    have := (hreach 1 0 Diamond.x rfl 1).2 ⟨1, 0, Diamond.y, rfl, by decide, hxy⟩
    exact absurd this (by decide)

end Tape

end Tangent
