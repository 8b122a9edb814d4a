import Tangent.Proofs.Cells
import Tangent.Proofs.Dependencies

/-!
# What is not in the pattern of a Jacobian does not matter

The value at a position is determined by the inputs that it needs (`Layout.valueAt_congr`). The
cells of a Jacobian are found with masks, of which each holds the seeds of one chunk of the inputs;
put together, the chunks give exactly the pairs of an output and an input that it needs
(`Layout.mem_jacobianCells`). So an input that has no cell in the row of an output can be changed
without any effect on this output (`Layout.valueAt_eq_of_not_hasCell`).
-/

set_option linter.unusedSectionVars false

namespace Tangent

variable {K : Type}

namespace Mask

/-- To look at the lowest bit of a mask is to ask whether it holds the first seed. -/
theorem and_one_eq_holds (m : Mask) : (m &&& 1 != 0) = m.holds 0 := by
  have hand : (m &&& 1).toBitVec = BitVec.setWidth 64 (BitVec.ofBool (m.holds 0)) := by
    rw [UInt64.toBitVec_and, UInt64.toBitVec_one, BitVec.and_one_eq_setWidth_ofBool_getLsbD, holds]
  rw [Bool.eq_iff_iff, bne_iff_ne, ne_eq, ← UInt64.toBitVec_inj, hand]
  cases m.holds 0 <;> decide

theorem holds_shiftRight (m : Mask) (b : Nat) : (m >>> 1).holds b = m.holds (b + 1) := by
  have hone : ((1 : UInt64).toBitVec % 64).toNat = 1 := rfl
  rw [holds, UInt64.toBitVec_shiftRight, BitVec.ushiftRight_eq', hone, BitVec.getLsbD_ushiftRight,
    holds, Nat.add_comm]

theorem lt_width_of_holds {m : Mask} {b : Nat} (h : m.holds b) : b < width :=
  BitVec.lt_of_getLsbD h

end Mask

namespace Tape

variable {t : Tape K} {openEnded : Bool} {i j : Nat}

/-! ## Values -/

/-- The value at a position is determined by the inputs that it needs. -/
theorem Layout.valueAt_congr [Scalar K] (h : t.Layout openEnded) {args args' : List (List K)}
    (hargs : args.map List.length = t.inputs.map (·.nnz))
    (hargs' : args'.map List.length = t.inputs.map (·.nnz)) {q : Nat} (hq : q < t.steps.length)
    (hsame : ∀ p, t.Needs q p → args.flatten[p]? = args'.flatten[p]?) :
    t.valueAt args q = t.valueAt args' q := by
  induction q using Nat.strongRecOn with
  | ind q ih =>
  rcases Nat.lt_or_ge q t.width with hlt | hge
  · rw [valueAt, valueAt, Array.getD_eq_getD_getElem?, Array.getD_eq_getD_getElem?,
      getElem?_values_input hargs hlt, getElem?_values_input hargs' hlt, hsame q .refl]
  · have hs : t.steps[q]? = some t.steps[q] := List.getElem?_eq_getElem hq
    rw [valueAt, valueAt, h.getD_values_step hargs hge hs, h.getD_values_step hargs' hge hs]
    refine Step.eval_congr fun k hk => ?_
    have hkq := h.operand_lt hs hk
    exact ih k hkq (Nat.lt_trans hkq hq) fun p hp =>
      hsame p (needs_iff_head.2 (Or.inr ⟨k, ⟨_, hs, hk⟩, hp⟩))

/-! ## The cells -/

/-- One seed for each of the input nonzeros from `offset` on, as far as one mask goes. -/
def chunkSeeds (count offset : Nat) : List Mask :=
  (List.range count).map fun k =>
    if offset ≤ k && k < offset + Mask.width then 1 <<< UInt64.ofNat (k - offset) else 0

theorem length_foldl_set {α : Type} (f : Nat → α) (ks : List Nat) (l : List α) :
    (ks.foldl (fun l k => l.set k (f k)) l).length = l.length := by
  induction ks generalizing l with
  | nil => rfl
  | cons k ks ih => exact (ih _).trans List.length_set

theorem getElem?_foldl_set {α : Type} (f : Nat → α) (start : Nat) (l : List α) (j : Nat) :
    ∀ n, ((List.range' start n).foldl (fun l k => l.set k (f k)) l)[j]? =
      if start ≤ j ∧ j < start + n ∧ j < l.length then some (f j) else l[j]?
  | 0 => by
    rw [if_neg (by omega)]
    rfl
  | n + 1 => by
    rw [List.range'_1_concat, List.foldl_append, List.foldl_cons, List.foldl_nil,
      List.getElem?_set, length_foldl_set, getElem?_foldl_set f start l j n]
    by_cases hj : start + n = j
    · subst hj
      rw [if_pos rfl]
      split_ifs with hlt hin
      · rfl
      · omega
      · omega
      · exact (List.getElem?_eq_none (by omega)).symm
    · rw [if_neg hj]
      refine if_congr ?_ rfl rfl
      omega

/-- Seeds that are cleared and set are those of one chunk. -/
theorem setSeeds_eq (offset : Nat) (seeds : List Mask) :
    setSeeds offset seeds = chunkSeeds seeds.length offset := by
  refine List.ext_getElem? fun j => ?_
  rw [setSeeds, getElem?_foldl_set]
  rcases Nat.lt_or_ge j seeds.length with hj | hj
  · rw [chunkSeeds, List.getElem?_map, List.getElem?_map, List.getElem?_range hj,
      List.getElem?_eq_getElem hj, Option.map_some, Option.map_some, List.length_map]
    by_cases hchunk : offset ≤ j ∧ j < offset + Mask.width
    · rw [if_pos (by omega), if_pos (by simpa using hchunk)]
    · rw [if_neg (by omega), if_neg (by simpa using hchunk)]
  · rw [if_neg (by simp; omega), List.getElem?_eq_none (by simpa using hj),
      List.getElem?_eq_none (by simpa [chunkSeeds] using hj)]

/-- The seeds of one chunk of the nonzeros of input `i`. -/
def chunkMasks (t : Tape K) (i chunk : Nat) : List (List Mask) :=
  (t.inputs.map (·.nnz)).zipIdx.map fun (size, k) =>
    if k = i then chunkSeeds size (chunk * Mask.width) else List.replicate size 0

theorem map_length_chunkMasks (t : Tape K) (i chunk : Nat) :
    (t.chunkMasks i chunk).map List.length = t.inputs.map (·.nnz) := by
  have hlength : ∀ p : Nat × Nat, (if p.2 = i then chunkSeeds p.1 (chunk * Mask.width)
      else List.replicate p.1 0).length = p.1 := fun p => by
    split <;> simp [chunkSeeds]
  rw [chunkMasks, List.map_map]
  conv_rhs => rw [← List.zipIdx_map_fst 0 (t.inputs.map (·.nnz))]
  exact List.map_congr_left fun p _ => hlength p

/-- A chunk has one seed for each of its nonzeros. -/
theorem marked_chunkMasks {chunk a k b : Nat} {n : Node K} (hn : nonzero? t.inputs a k = some n)
    (hb : b < Mask.width) :
    marked (t.chunkMasks i chunk) a k b ↔ a = i ∧ k = chunk * Mask.width + b := by
  obtain ⟨m, hm, hk⟩ := nonzero?_eq_some.1 hn
  have hlt : k < m.nnz := (List.getElem?_eq_some_iff.1 hk).1
  simp only [marked, item?, chunkMasks, List.getElem?_map, List.getElem?_zipIdx, hm,
    Option.map_some, Option.bind_some, Nat.zero_add]
  by_cases ha : a = i
  · simp only [ha, if_true, chunkSeeds, List.getElem?_map, List.getElem?_range hlt, Option.map_some,
      Option.any_some, true_and, Bool.and_eq_true, decide_eq_true_eq]
    split_ifs with hchunk
    · rw [Mask.holds_shiftLeft (by omega), decide_eq_true_eq]
      omega
    · rw [Mask.holds_zero]
      refine iff_of_false Bool.false_ne_true fun h => hchunk ?_
      omega
  · simp [ha, hlt]

/-- The cells of the Jacobian of output `j` by input `i`, chunk by chunk. -/
def jacobianCells (t : Tape K) (i j : Nat) : List Cell :=
  (List.range (chunks ((t.inputs.map (·.nnz)).getD i 0))).flatMap fun chunk =>
    cellsOf (chunk * Mask.width)
      ((t.results.getD j []).map ((t.forwardMasks (t.chunkMasks i chunk)).getD · 0))

/-- Shifting a mask until it is empty finds all of its seeds. -/
theorem mem_seedsFrom {k b : Nat} {mask : Mask} :
    b ∈ seedsFrom k mask ↔ k ≤ b ∧ mask.holds (b - k) := by
  have hsub {k : Nat} (hlt : k < b) : b - (k + 1) + 1 = b - k := by omega
  fun_induction seedsFrom k mask with
  | case1 k => simp
  | case2 k mask hmask hbit ih =>
    rw [Mask.and_one_eq_holds] at hbit
    rw [Mask.holds_shiftRight] at ih
    refine (List.mem_cons.trans (or_congr_right ih)).trans ?_
    constructor
    · rintro (rfl | ⟨hlt, h⟩)
      · exact ⟨Nat.le_refl b, by rwa [Nat.sub_self]⟩
      · exact ⟨Nat.le_of_lt hlt, hsub hlt ▸ h⟩
    · rintro ⟨hle, h⟩
      rcases Nat.eq_or_lt_of_le hle with rfl | hlt
      · exact .inl rfl
      · exact .inr ⟨hlt, (hsub hlt).symm ▸ h⟩
  | case3 k mask hmask hbit ih =>
    rw [Mask.and_one_eq_holds] at hbit
    rw [Mask.holds_shiftRight] at ih
    refine ih.trans ?_
    constructor
    · rintro ⟨hlt, h⟩
      exact ⟨Nat.le_of_lt hlt, hsub hlt ▸ h⟩
    · rintro ⟨hle, h⟩
      rcases Nat.eq_or_lt_of_le hle with rfl | hlt
      · exact absurd (by rwa [Nat.sub_self] at h) hbit
      · exact ⟨hlt, (hsub hlt).symm ▸ h⟩

theorem mem_cellsOf {offset : Nat} {masks : List Mask} {cell : Cell} :
    cell ∈ cellsOf offset masks ↔ ∃ r m b, masks[r]? = some m ∧ b < Mask.width ∧ m.holds b ∧
      cell = { row := Int64.ofNat r, col := Int64.ofNat (offset + b) } := by
  simp only [cellsOf, List.mem_flatMap, List.mem_map, mem_seedsFrom, Prod.exists,
    List.mk_mem_zipIdx_iff_getElem?, Nat.sub_zero, Nat.zero_le, true_and]
  constructor
  · rintro ⟨m, r, hm, b, hb, rfl⟩
    exact ⟨r, m, b, hm, Mask.lt_width_of_holds hb, hb, rfl⟩
  · rintro ⟨r, m, b, hm, -, hb, rfl⟩
    exact ⟨m, r, hm, b, hb, rfl⟩

/-- An output holds the seed of a chunk exactly if it needs the nonzero that the seed stands for. -/
theorem Layout.holds_chunkMasks (h : t.Layout openEnded) {q chunk b : Nat}
    (hq : q < t.steps.length) (hb : b < Mask.width) :
    ((t.forwardMasks (t.chunkMasks i chunk)).getD q 0).holds b ↔
      ∃ p n, t.Needs q p ∧ (numbered t.inputs)[p]? = some (i, chunk * Mask.width + b, n) := by
  have hshape := t.map_length_chunkMasks i chunk
  rw [h.holds_forwardMasks hshape b hq]
  have hplace : ∀ {p a k n}, (numbered t.inputs)[p]? = some (a, k, n) →
      ((∃ m : Mask, (t.chunkMasks i chunk).flatten[p]? = some m ∧ m.holds b) ↔
        a = i ∧ k = chunk * Mask.width + b) := fun hp => by
    obtain ⟨m, hm, hk, -⟩ := getElem?_numbered hp
    rw [← marked_chunkMasks (nonzero?_eq_some.2 ⟨m, hm, hk⟩) hb, marked_iff, item?,
      ← getElem?_flatten_numbered hshape hp]
  constructor
  · rintro ⟨p, m, hneeds, hm⟩
    have hp : p < (numbered t.inputs).length := by
      rw [length_numbered, ← length_flatten_args hshape]
      exact (List.getElem?_eq_some_iff.1 hm.1).1
    obtain ⟨⟨a, k, n⟩, hp⟩ : ∃ x, (numbered t.inputs)[p]? = some x :=
      ⟨_, List.getElem?_eq_getElem hp⟩
    obtain ⟨rfl, rfl⟩ := (hplace hp).1 ⟨m, hm⟩
    exact ⟨p, n, hneeds, hp⟩
  · rintro ⟨p, n, hneeds, hp⟩
    obtain ⟨m, hm⟩ := (hplace hp).2 ⟨rfl, rfl⟩
    exact ⟨p, m, hneeds, hm⟩

/-- The cells are those of an output and an input that it needs. -/
theorem Layout.mem_jacobianCells (h : t.Layout openEnded) {cell : Cell} :
    cell ∈ t.jacobianCells i j ↔ ∃ r c q p n, item? t.results j r = some q ∧ t.Needs q p ∧
      (numbered t.inputs)[p]? = some (i, c, n) ∧
        cell = { row := Int64.ofNat r, col := Int64.ofNat c } := by
  have hitem : ∀ r, item? t.results j r = (t.results.getD j [])[r]? := fun r => by
    rw [item?, List.getD_eq_getElem?_getD]
    cases t.results[j]? <;> simp
  have hlt : ∀ {r q}, item? t.results j r = some q → q < t.steps.length := fun hq =>
    h.result_lt (mem_flatten_of_item? hq)
  simp only [jacobianCells, List.mem_flatMap, List.mem_range, mem_cellsOf, List.getElem?_map,
    Option.map_eq_some_iff, ← hitem]
  constructor
  · rintro ⟨chunk, -, r, _, b, ⟨q, hq, rfl⟩, hb, hbit, rfl⟩
    obtain ⟨p, n, hneeds, hp⟩ := (h.holds_chunkMasks (hlt hq) hb).1 hbit
    exact ⟨r, _, q, p, n, hq, hneeds, hp, rfl⟩
  · rintro ⟨r, c, q, p, n, hq, hneeds, hp, rfl⟩
    obtain ⟨m, hm, hc, -⟩ := getElem?_numbered hp
    have hcount : (t.inputs.map (·.nnz)).getD i 0 = m.nonzeros.length := by
      rw [List.getD_eq_getElem?_getD, List.getElem?_map, hm]
      rfl
    have hcm := (List.getElem?_eq_some_iff.1 hc).1
    have hsplit : c / Mask.width * Mask.width + c % Mask.width = c := Nat.div_add_mod' c Mask.width
    have hb : c % Mask.width < Mask.width := Nat.mod_lt _ (by decide)
    refine ⟨c / Mask.width, ?_, r, _, c % Mask.width, ⟨q, hq, rfl⟩, hb, ?_, by rw [hsplit]⟩
    · rw [hcount, chunks]
      change c / 64 < (m.nonzeros.length + 64 - 1) / 64
      omega
    · exact (h.holds_chunkMasks (hlt hq) hb).2 ⟨p, n, hneeds, by rw [hsplit]; exact hp⟩

/-- There is a mask for each nonzero, and no seed outside of input `i`. -/
structure SeededAt (t : Tape K) (i : Nat) (seeds : List (List Mask)) : Prop where
  lengths : seeds.map List.length = t.inputs.map (·.nnz)
  others : ∀ k, k ≠ i → seeds[k]? = t.inputs[k]?.map fun m => List.replicate m.nnz 0

theorem seededAt_zeros (t : Tape K) (i : Nat) :
    t.SeededAt i (t.inputs.map fun m => List.replicate m.nnz 0) :=
  ⟨by simp [Function.comp_def], fun k _ => List.getElem?_map⟩

theorem seededAt_chunkMasks (t : Tape K) (i chunk : Nat) :
    t.SeededAt i (t.chunkMasks i chunk) := by
  refine ⟨t.map_length_chunkMasks i chunk, fun k hk => ?_⟩
  rw [chunkMasks, List.getElem?_map, List.getElem?_zipIdx, List.getElem?_map]
  cases t.inputs[k]? <;> simp [hk]

/-- Whatever chunk came before, the seeds become those of the next one. -/
theorem SeededAt.modify_eq {seeds : List (List Mask)} (h : t.SeededAt i seeds) (chunk : Nat) :
    seeds.modify i (setSeeds (chunk * Mask.width)) = t.chunkMasks i chunk := by
  refine List.ext_getElem? fun k => ?_
  rw [List.getElem?_modify, chunkMasks, List.getElem?_map, List.getElem?_zipIdx, List.getElem?_map]
  by_cases hk : k = i
  · subst hk
    have hlength : seeds[k]?.map List.length = t.inputs[k]?.map (·.nnz) := by
      rw [← List.getElem?_map, h.lengths, List.getElem?_map]
    rw [← hlength]
    cases seeds[k]? <;> simp [setSeeds_eq]
  · rw [h.others k hk]
    cases t.inputs[k]? <;> simp [hk, Ne.symm hk]

/-- The chunks add their cells, one after the other. -/
theorem foldlM_addChunk (t : Tape K) (i j : Nat) :
    ∀ (chunks : List Nat) {seeds : List (List Mask)} {cells : List Cell}, t.SeededAt i seeds →
      ∃ seeds', chunks.foldlM (t.addChunk i j) (seeds, cells) =
        .ok (seeds', cells ++ chunks.flatMap fun chunk => cellsOf (chunk * Mask.width)
          ((t.results.getD j []).map ((t.forwardMasks (t.chunkMasks i chunk)).getD · 0)))
  | [], seeds, cells, _ => ⟨seeds, by simp [pure, Except.pure]⟩
  | chunk :: chunks, seeds, cells, h => by
    have hrow : ∀ g : Nat → Mask,
        (t.results.map (·.map g)).getD j [] = (t.results.getD j []).map g := fun g => by
      simp only [List.getD_eq_getElem?_getD, List.getElem?_map]
      cases t.results[j]? <;> rfl
    have hstep : t.addChunk i j (seeds, cells) chunk = .ok (t.chunkMasks i chunk,
        cells ++ cellsOf (chunk * Mask.width)
          ((t.results.getD j []).map ((t.forwardMasks (t.chunkMasks i chunk)).getD · 0))) := by
      simp only [addChunk, h.modify_eq, masksForward_eq (t.map_length_chunkMasks i chunk), bind,
        Except.bind, pure, Except.pure, hrow]
    rw [List.foldlM_cons, hstep]
    obtain ⟨seeds', hrest⟩ := foldlM_addChunk t i j chunks (t.seededAt_chunkMasks i chunk)
    refine ⟨seeds', hrest.trans ?_⟩
    rw [List.flatMap_cons, List.append_assoc]

/-- The pattern of a Jacobian is made of its cells. -/
theorem jacobianPattern_ok_iff {input output : Int64} {p : Pattern} :
    t.jacobianPattern input output = .ok p ↔
      (0 ≤ input ∧ input < Int64.ofNat t.inputs.length) ∧
      (0 ≤ output ∧ output < Int64.ofNat t.outputs.length) ∧
      Pattern.ofCells
        (Int64.ofNat ((t.outputs.map (·.nnz)).getD output.toNatClampNeg 0))
        (Int64.ofNat ((t.inputs.map (·.nnz)).getD input.toNatClampNeg 0))
        (t.jacobianCells input.toNatClampNeg output.toNatClampNeg) = .ok p := by
  unfold jacobianPattern
  simp only [← Bool.decide_and, decide_eq_true_eq]
  by_cases hin : 0 ≤ input ∧ input < Int64.ofNat t.inputs.length
  · by_cases hout : 0 ≤ output ∧ output < Int64.ofNat t.outputs.length
    · obtain ⟨seeds, hcells⟩ := t.foldlM_addChunk input.toNatClampNeg output.toNatClampNeg
        (List.range (chunks ((t.inputs.map (·.nnz)).getD input.toNatClampNeg 0)))
        (t.seededAt_zeros input.toNatClampNeg)
      rw [if_pos hin, if_pos hout, hcells]
      exact ⟨fun h => ⟨hin, hout, h⟩, fun h => h.2.2⟩
    · rw [if_pos hin, if_neg hout]
      exact iff_of_false (by rintro ⟨⟩) fun h => hout h.2.1
  · rw [if_neg hin]
    exact iff_of_false (by rintro ⟨⟩) fun h => hin h.1

/-- There is a cell wherever an output reaches an input. -/
theorem Layout.hasCell_of_reaches (h : t.Layout openEnded) {G : Graph K}
    (hG : ∀ n ∈ t.nodes, n ∈ G.nodes) {input output : Int64} {pattern : Pattern}
    (hpattern : t.jacobianPattern input output = .ok pattern) (hnnz : pattern.nnz < 2 ^ 63)
    {r c : Nat} {n x : Node K} (hn : nonzero? t.outputs output.toNatClampNeg r = some n)
    (hnG : n ∈ G.nodes) (hx : nonzero? t.inputs input.toNatClampNeg c = some x)
    (hreach : n.Reaches x) :
    pattern.HasCell { row := Int64.ofNat r, col := Int64.ofNat c } := by
  obtain ⟨-, -, hcells⟩ := jacobianPattern_ok_iff.1 hpattern
  have hitem : item? t.results output.toNatClampNeg r = some (t.position n) := by
    rw [results, item?_map_nonzeros, hn]
    rfl
  obtain ⟨m, hm, hxm⟩ := nonzero?_eq_some.1 hx
  obtain ⟨i, hi⟩ : ∃ i, (numbered t.inputs)[i]? = some (input.toNatClampNeg, c, x) := by
    refine List.getElem?_of_mem (List.mem_flatMap.2 ⟨(m, input.toNatClampNeg), ?_, ?_⟩)
    · exact List.mem_zipIdx_iff_getElem?.2 hm
    · exact List.mem_map.2 ⟨(x, c), List.mem_zipIdx_iff_getElem?.2 hxm, rfl⟩
  have hposition := getElem?_position_of_graph hG hnG (h.outputs n (mem_nonzerosOf hn))
  have hinput : t.nodes[i]? = some x := by
    have hlt : i < t.width := length_numbered t ▸ (List.getElem?_eq_some_iff.1 hi).1
    rw [h.getElem?_input hlt, nonzerosOf, ← map_numbered, List.getElem?_map, hi]
    rfl
  rw [Pattern.hasCell_ofCells hcells hnnz]
  exact h.mem_jacobianCells.2 ⟨r, c, t.position n, i, x, hitem,
    (h.needs_iff_reaches hG hposition hinput).2 hreach, hi, rfl⟩

theorem lt_getD_nnz {matrices : List (SparseMatrix K)} {k : Nat} {n : Node K}
    (hn : nonzero? matrices i k = some n) : k < (matrices.map (·.nnz)).getD i 0 := by
  obtain ⟨m, hm, hk⟩ := nonzero?_eq_some.1 hn
  rw [List.getD_eq_getElem?_getD, List.getElem?_map, hm]
  exact (List.getElem?_eq_some_iff.1 hk).1

theorem getD_nnz_lt {matrices : List (SparseMatrix K)} {bound : Nat} (hbound : 0 < bound)
    (h : ∀ m ∈ matrices, m.nnz < bound) : (matrices.map (·.nnz)).getD i 0 < bound := by
  rw [List.getD_eq_getElem?_getD, List.getElem?_map]
  cases hm : matrices[i]? with
  | none => exact hbound
  | some m => exact h m (List.mem_of_getElem? hm)

theorem fits_succ {count : Nat} (h : count < Pattern.capacity.toNatClampNeg) :
    Pattern.fits (Int64.ofNat count + 1) := by
  have hcapacity : Pattern.capacity = Int64.ofNat Pattern.capacity.toNatClampNeg := by decide
  have hbound := Int64.toNatClampNeg_lt Pattern.capacity
  have hsucc : Int64.ofNat count + 1 = Int64.ofNat (count + 1) := (Int64.ofNat_add count 1).symm
  rw [Pattern.fits, Bool.and_eq_true, decide_eq_true_eq, decide_eq_true_eq, hsucc, hcapacity]
  exact ⟨Int64.zero_le_ofNat_of_lt (by omega), (Int64.ofNat_le_iff_le (by omega) hbound).2 h⟩

/-- Within the bounds of a machine, there is a pattern for every input and output. -/
theorem Layout.exists_jacobianPattern (h : t.Layout openEnded) {input output : Int64}
    (hin : 0 ≤ input ∧ input < Int64.ofNat t.inputs.length)
    (hout : 0 ≤ output ∧ output < Int64.ofNat t.outputs.length)
    (hsizes : ∀ m ∈ t.inputs ++ t.outputs, m.nnz < Pattern.capacity.toNatClampNeg) :
    ∃ p, t.jacobianPattern input output = .ok p := by
  have hncol := getD_nnz_lt (i := input.toNatClampNeg) (by decide) fun m hm =>
    hsizes m (List.mem_append_left _ hm)
  have hnrow := getD_nnz_lt (i := output.toNatClampNeg) (by decide) fun m hm =>
    hsizes m (List.mem_append_right _ hm)
  refine ⟨_, jacobianPattern_ok_iff.2 ⟨hin, hout,
    Pattern.ofCells_ok_iff.2 ⟨fun cell hcell => ?_, fits_succ hncol, rfl⟩⟩⟩
  obtain ⟨r, c, q, p, n, hq, -, hp, rfl⟩ := h.mem_jacobianCells.1 hcell
  obtain ⟨m, hm, hc, -⟩ := getElem?_numbered hp
  have hcol := lt_getD_nnz (nonzero?_eq_some.2 ⟨m, hm, hc⟩)
  rw [results, item?_map_nonzeros] at hq
  obtain ⟨n', hn', -⟩ := Option.map_eq_some_iff.1 hq
  have hrow := lt_getD_nnz hn'
  have hbound := Int64.toNatClampNeg_lt Pattern.capacity
  have hlt : ∀ {x y : Nat}, x < y → y < Pattern.capacity.toNatClampNeg →
      0 ≤ Int64.ofNat x ∧ Int64.ofNat x < Int64.ofNat y := fun hxy hy =>
    ⟨Int64.zero_le_ofNat_of_lt (by omega), (Int64.ofNat_lt_iff_lt (by omega) (by omega)).2 hxy⟩
  exact Cell.inRange_iff.2 ⟨hlt hrow hnrow, hlt hcol hncol⟩

/-- An input nonzero that has no cell in the row of an output nonzero has no effect on it. -/
theorem Layout.valueAt_eq_of_not_hasCell [Scalar K] (h : t.Layout openEnded)
    {input output : Int64} {p : Pattern} (hp : t.jacobianPattern input output = .ok p)
    (hnnz : p.nnz < 2 ^ 63) {r c q : Nat}
    (hcell : ¬p.HasCell { row := Int64.ofNat r, col := Int64.ofNat c })
    (hq : item? t.results output.toNatClampNeg r = some q) {args args' : List (List K)}
    (hargs : args.map List.length = t.inputs.map (·.nnz))
    (hargs' : args'.map List.length = t.inputs.map (·.nnz))
    (hsame : ∀ a k, (a, k) ≠ (input.toNatClampNeg, c) → item? args a k = item? args' a k) :
    t.valueAt args q = t.valueAt args' q := by
  obtain ⟨-, -, hcells⟩ := jacobianPattern_ok_iff.1 hp
  rw [Pattern.hasCell_ofCells hcells hnnz, h.mem_jacobianCells] at hcell
  refine h.valueAt_congr hargs hargs' (h.result_lt (mem_flatten_of_item? hq)) fun x hx => ?_
  rcases Nat.lt_or_ge x t.width with hlt | hge
  · obtain ⟨⟨a, k, n⟩, hplace⟩ : ∃ y, (numbered t.inputs)[x]? = some y :=
      ⟨_, List.getElem?_eq_getElem (by rwa [length_numbered])⟩
    rw [getElem?_flatten_numbered hargs hplace, getElem?_flatten_numbered hargs' hplace]
    refine hsame a k fun hak => hcell ?_
    obtain ⟨rfl, rfl⟩ := Prod.mk.inj hak
    exact ⟨r, k, q, x, n, hq, hx, hplace, rfl⟩
  · rw [List.getElem?_eq_none (by rwa [length_flatten_args hargs]),
      List.getElem?_eq_none (by rwa [length_flatten_args hargs'])]

/-- The pattern of a Jacobian misses no dependency. There is one for every input and output whose
nonzeros can be stored; and where it has no cell, two evaluations whose arguments differ in the
input nonzero of the column alone give the output nonzero of the row the same value. -/
theorem jacobianPattern_sound [Numeral K] [Scalar K] {name : String}
    {inputs outputs : List (SparseMatrix K)} {t : Tape K}
    (h : freeze name inputs outputs = .ok t) :
    (∀ input output : Int64, 0 ≤ input ∧ input < Int64.ofNat inputs.length →
      0 ≤ output ∧ output < Int64.ofNat outputs.length →
      (∀ m ∈ inputs ++ outputs, m.nnz < Pattern.capacity.toNatClampNeg) →
        ∃ p, t.jacobianPattern input output = .ok p) ∧
    ∀ (input output : Int64) (p : Pattern), t.jacobianPattern input output = .ok p →
      p.nnz < 2 ^ 63 → ∀ (r c : Nat) (n : Node K),
      nonzero? outputs output.toNatClampNeg r = some n →
      ¬p.HasCell { row := Int64.ofNat r, col := Int64.ofNat c } →
      ∀ args args' vals vals' : List (List K),
        (∀ a k, (a, k) ≠ (input.toNatClampNeg, c) → item? args a k = item? args' a k) →
        t.eval args = .ok vals → t.eval args' = .ok vals' →
          ∃ v, item? vals output.toNatClampNeg r = some v ∧
            item? vals' output.toNatClampNeg r = some v := by
  have hlay := layout_of_layOut h
  obtain ⟨-, rfl, rfl, -⟩ := layOut_ok h
  refine ⟨fun input output => hlay.exists_jacobianPattern, ?_⟩
  intro input output p hp hnnz r c n hn hcell args args' vals vals' hsame hvals hvals'
  obtain ⟨hargs, rfl⟩ := eval_ok_iff.1 hvals
  obtain ⟨hargs', rfl⟩ := eval_ok_iff.1 hvals'
  have hq : item? t.results output.toNatClampNeg r = some (t.position n) := by
    rw [results, item?_map_nonzeros, hn]
    rfl
  have hmap : ∀ g : Nat → K, item? (t.results.map (·.map g)) output.toNatClampNeg r =
      some (g (t.position n)) := fun g => by
    simp only [results, List.map_map, Function.comp_def]
    rw [item?_map_nonzeros, hn]
    rfl
  refine ⟨_, hmap _, ?_⟩
  rw [hmap, hlay.valueAt_eq_of_not_hasCell hp hnnz hcell hq hargs hargs' hsame]

/-! ## A sine and a product

Of two inputs, the sine depends on the first one alone, and the product on both. -/

namespace SineProduct

def x : Node Float := .symbol 1 "x"
def y : Node Float := .symbol 2 "y"
def sine : Node Float := .unary 3 .sin x
def product : Node Float := .binary 4 .mul x y

def column (key : Nat) (nodes : List (Node Float)) : SparseMatrix Float where
  sp := ⟨key, 2, 1, [0, 2], [0, 1]⟩
  nonzeros := nodes

def tape : Tape Float where
  name := "sine_product"
  inputs := [column 5 [x, y]]
  outputs := [column 6 [sine, product]]
  toOrder := .ofNodes [x, y, sine, product] (by decide)

/-- Three of four places are structural nonzeros. -/
def pattern : Pattern where
  nrow := 2
  ncol := 2
  offsets := [0, 2, 3]
  rows := [0, 1, 1]

end SineProduct

/-- The sine does not change with the second input. -/
theorem jacobianPattern_sound_sineProduct :
    freeze "sine_product" SineProduct.tape.inputs SineProduct.tape.outputs = .ok SineProduct.tape ∧
    SineProduct.tape.jacobianPattern 0 0 = .ok SineProduct.pattern ∧
    ¬SineProduct.pattern.HasCell { row := 0, col := 1 } ∧
    ∃ vals vals' v, SineProduct.tape.eval [[2, 3]] = .ok vals ∧
      SineProduct.tape.eval [[2, 5]] = .ok vals' ∧
      item? vals 0 0 = some v ∧ item? vals' 0 0 = some v := by
  have hfreeze : freeze "sine_product" SineProduct.tape.inputs SineProduct.tape.outputs =
    .ok SineProduct.tape := by rfl
  have hpattern : SineProduct.tape.jacobianPattern 0 0 = .ok SineProduct.pattern := by cbv
  have hcell : ¬SineProduct.pattern.HasCell { row := 0, col := 1 } := by decide
  have hsame : ∀ a k, (a, k) ≠ (0, 1) →
      item? [[(2 : Float), 3]] a k = item? [[(2 : Float), 5]] a k := by
    rintro (_ | a) (_ | _ | k) hak
    · simp [item?]
    · exact absurd rfl hak
    all_goals simp [item?]
  have hvals : SineProduct.tape.eval [[2, 3]] = .ok _ := eval_ok_iff.2 ⟨rfl, rfl⟩
  have hvals' : SineProduct.tape.eval [[2, 5]] = .ok _ := eval_ok_iff.2 ⟨rfl, rfl⟩
  obtain ⟨v, hv, hv'⟩ := (jacobianPattern_sound hfreeze).2 0 0 SineProduct.pattern hpattern
    (by decide) 0 1 SineProduct.sine rfl hcell _ _ _ _ hsame hvals hvals'
  exact ⟨hfreeze, hpattern, hcell, _, _, v, hvals, hvals', hv, hv'⟩

end Tape

end Tangent
