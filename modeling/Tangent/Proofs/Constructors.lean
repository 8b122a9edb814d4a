import Mathlib
import Tangent.Proofs.WellFormed

/-!
# What the constructors of patterns answer

A constructor should answer with an inconsistency or with a well-formed pattern (`Proper`). Patterns
from cells (`wellFormed_ofCells`) and with every place (`wellFormed_full`) are well formed if their
sizes are not negative and nothing wraps around, but neither constructor looks at its sizes. The
constructor from columns looks at everything, though it reads the rows of a column before it has
seen that the column ends too late. `constructors_proper_iff` says for which inputs the answers are
proper.
-/

namespace Tangent.Pattern

variable {p : Pattern} {nrow ncol : Int64}

/-! ## From cells -/

/-- The offsets of columns without a negative one lead from zero to the number of nonzeros. -/
theorem framed_startsOf {cols rows : List Int64} (hnrow : 0 ≤ nrow) (hncol : 0 ≤ ncol)
    (hrows : rows.length = cols.length) (hlen : cols.length < 2 ^ 63)
    (hcols : ∀ c ∈ cols, 0 ≤ c ∧ c < ncol) :
    Framed { nrow, ncol, offsets := startsOf ncol.toNatClampNeg cols, rows } := by
  refine ⟨hnrow, hncol, length_startsOf _ _, ?_, ?_⟩
  · have hnone : cols.countP (· < Int64.ofNat 0) = 0 :=
      List.countP_eq_zero.2 fun c hc => by simpa using (hcols c hc).1
    rw [List.head?_eq_getElem?, getElem?_startsOf (Nat.zero_le _), hnone]
    rfl
  · have hall : cols.countP (· < Int64.ofNat ncol.toNatClampNeg) = cols.length := by
      rw [Int64.ofNat_toNatClampNeg ncol hncol]
      exact List.countP_eq_length.2 fun c hc => by simpa using (hcols c hc).2
    rw [List.getLast?_eq_getElem?, length_startsOf, Nat.add_sub_cancel,
      getElem?_startsOf (Nat.le_refl _), hall, Option.map_some, Int64.toInt_ofNat_of_lt hlen]
    simp [nnz, hrows]

theorem pairwise_startsOf (n : Nat) {cols : List Int64} (hlen : cols.length < 2 ^ 63)
    (hn : n < 2 ^ 63) : (startsOf n cols).Pairwise (· ≤ ·) := by
  rw [startsOf, List.pairwise_map]
  refine List.pairwise_lt_range.imp_of_mem fun {a b} ha hb hab => ?_
  have hb := List.mem_range.1 hb
  have hmono : cols.countP (· < Int64.ofNat a) ≤ cols.countP (· < Int64.ofNat b) :=
    List.countP_mono_left fun c _ hc => by
      have hlt := (Int64.ofNat_lt_iff_lt (a := a) (b := b) (by omega) (by omega)).2 hab
      simpa using Int64.lt_trans (by simpa using hc) hlt
  have hle := List.countP_le_length (p := (· < Int64.ofNat b)) (l := cols)
  rw [Int64.ofNat_le_iff_le (by omega) (by omega)]
  exact hmono

theorem ofCells_of_not_inRange {cells : List Cell} {cell : Cell} (hcell : cell ∈ cells)
    (hout : ¬cell.inRange nrow ncol) : ∃ cause, ofCells nrow ncol cells = .inconsistent cause := by
  have hsome : (cells.find? fun cell => !cell.inRange nrow ncol).isSome :=
    List.find?_isSome.2 ⟨cell, hcell, by simpa using hout⟩
  obtain ⟨first, hfirst⟩ := Option.isSome_iff_exists.1 hsome
  unfold ofCells
  rw [hfirst]
  exact ⟨_, rfl⟩

theorem ofCells_of_not_fits {cells : List Cell} (hcells : ∀ cell ∈ cells, cell.inRange nrow ncol)
    (hfits : ¬fits (ncol + 1)) : ofCells nrow ncol cells = .fault .outOfRange := by
  have hnone : (cells.find? fun cell => !cell.inRange nrow ncol) = none :=
    List.find?_eq_none.2 fun cell hcell => by simpa using hcells cell hcell
  unfold ofCells
  rw [hnone]
  simp only [hfits]
  rfl

/-- A column holds the rows of some of the stored cells, in their order. -/
theorem column_ofCells {cells : List Cell} (h : ofCells nrow ncol cells = .ok p)
    (hnnz : p.nnz < 2 ^ 63) (hncol : 0 ≤ ncol) {c : Nat} (hc : c < ncol.toNatClampNeg) :
    ∃ stretch : List Cell, stretch.Sublist (stored cells) ∧
      (∀ cell ∈ stretch, cell.col = Int64.ofNat c) ∧
      p.column c = stretch.map (·.row) := by
  have hrows : p.rows = (stored cells).map (·.row) := by
    obtain ⟨-, -, rfl⟩ := ofCells_ok_iff.1 h
    rfl
  refine ⟨((stored cells).drop (p.offset c)).take (p.offset (c + 1) - p.offset c),
    (List.take_sublist _ _).trans (List.drop_sublist _ _), fun cell hcell => ?_, ?_⟩
  · obtain ⟨k, hk⟩ := List.mem_iff_getElem?.1 hcell
    rw [List.getElem?_take, Option.ite_none_right_eq_some, List.getElem?_drop] at hk
    exact (col_stored_iff h hnnz hncol hc hk.2).1 ⟨by omega, by omega⟩
  · rw [column, hrows, List.map_take, List.map_drop]

theorem nnz_ofCells {cells : List Cell} (h : ofCells nrow ncol cells = .ok p) :
    p.nnz = (stored cells).length := by
  obtain ⟨-, -, rfl⟩ := ofCells_ok_iff.1 h
  exact List.length_map _

theorem wellFormed_of_nnz_lt {cells : List Cell} (h : ofCells nrow ncol cells = .ok p)
    (hnrow : 0 ≤ nrow) (hncol : 0 ≤ ncol) (hnnz : p.nnz < 2 ^ 63) : p.WellFormed := by
  have hstored : (stored cells).length < 2 ^ 63 := nnz_ofCells h ▸ hnnz
  obtain ⟨hcells, -, hp⟩ := ofCells_ok_iff.1 h
  rw [if_neg (Int64.not_lt.2 hncol)] at hp
  have hrange : ∀ cell ∈ stored cells,
      (0 ≤ cell.row ∧ cell.row < nrow) ∧ 0 ≤ cell.col ∧ cell.col < ncol := fun cell hcell =>
    Cell.inRange_iff.1 (hcells cell (mem_stored.1 hcell))
  have hcols : ∀ c ∈ (stored cells).map (·.col), 0 ≤ c ∧ c < ncol := by
    intro c hc
    obtain ⟨cell, hcell, rfl⟩ := List.mem_map.1 hc
    exact (hrange cell hcell).2
  have hframed : p.Framed := by
    rw [hp]
    exact framed_startsOf hnrow hncol (by simp) (by simpa using hstored) hcols
  refine ⟨hframed, ?_, fun c hc => ?_⟩
  · rw [hp]
    exact pairwise_startsOf _ (by simpa using hstored) (Int64.toNatClampNeg_lt ncol)
  · obtain ⟨stretch, hsub, hcol, hcolumn⟩ :=
      column_ofCells h hframed.nnz_lt hncol (c := c) (by rwa [hp] at hc)
    rw [hcolumn, show p.nrow = nrow by rw [hp]]
    refine ⟨fun r hr => ?_, ?_⟩
    · obtain ⟨cell, hcell, rfl⟩ := List.mem_map.1 hr
      exact (hrange cell (hsub.subset hcell)).1
    · rw [List.pairwise_map]
      refine ((pairwise_lt_stored cells).sublist hsub).imp_of_mem fun {a b} ha hb hab => ?_
      exact Cell.row_lt_of_le hab.1 hab.2 ((hcol a ha).trans (hcol b hb).symm)

theorem wellFormed_ofCells {cells : List Cell} (h : ofCells nrow ncol cells = .ok p)
    (hnrow : 0 ≤ nrow) (hncol : 0 ≤ ncol) (hlen : cells.length < 2 ^ 63) : p.WellFormed :=
  wellFormed_of_nnz_lt h hnrow hncol (nnz_ofCells h ▸ (length_stored_le cells).trans_lt hlen)

/-- There are no more nonzeros than places. -/
theorem nnz_ofCells_le {cells : List Cell} (h : ofCells nrow ncol cells = .ok p) :
    p.nnz ≤ nrow.toNatClampNeg * ncol.toNatClampNeg := by
  obtain ⟨hcells, -, -⟩ := ofCells_ok_iff.1 h
  have hnodup : (stored cells).Nodup := (pairwise_lt_stored cells).imp fun hab => hab.2
  have hplace : ∀ {x n : Int64}, 0 ≤ x → x < n → x.toNatClampNeg < n.toNatClampNeg := by
    intro x n hx hlt
    have := Int64.cast_toNatClampNeg x hx
    have := Int64.cast_toNatClampNeg n (Int64.le_of_lt (Int64.lt_of_le_of_lt hx hlt))
    rw [Int64.lt_iff_toInt_lt] at hlt
    omega
  have hrange : ∀ cell ∈ (stored cells).toFinset, cell.inRange nrow ncol := fun cell hcell =>
    hcells cell (mem_stored.1 (List.mem_toFinset.1 hcell))
  rw [nnz_ofCells h, ← List.toFinset_card_of_nodup hnodup]
  refine (Finset.card_le_card_of_injOn
    (fun cell : Cell => (cell.row.toNatClampNeg, cell.col.toNatClampNeg))
    (t := Finset.range nrow.toNatClampNeg ×ˢ Finset.range ncol.toNatClampNeg) ?_ ?_).trans_eq ?_
  · intro cell hcell
    obtain ⟨⟨hr, hr'⟩, hc, hc'⟩ := Cell.inRange_iff.1 (hrange cell hcell)
    exact Finset.mem_product.2
      ⟨Finset.mem_range.2 (hplace hr hr'), Finset.mem_range.2 (hplace hc hc')⟩
  · rintro ⟨r, c⟩ hrc ⟨r', c'⟩ hrc' heq
    obtain ⟨⟨hr, -⟩, hc, -⟩ := Cell.inRange_iff.1 (hrange _ hrc)
    obtain ⟨⟨hr', -⟩, hc', -⟩ := Cell.inRange_iff.1 (hrange _ hrc')
    obtain ⟨hrow, hcol⟩ := Prod.mk.inj heq
    rw [Cell.mk.injEq, ← Int64.ofNat_toNatClampNeg r hr, ← Int64.ofNat_toNatClampNeg c hc,
      ← Int64.ofNat_toNatClampNeg r' hr', ← Int64.ofNat_toNatClampNeg c' hc']
    exact ⟨congrArg Int64.ofNat hrow, congrArg Int64.ofNat hcol⟩
  · rw [Finset.card_product, Finset.card_range, Finset.card_range]

/-! ## With every place -/

theorem nnz_full (nrow ncol : Int64) :
    (full nrow ncol).nnz = ncol.toNatClampNeg * nrow.toNatClampNeg := by
  simp [nnz, full]

theorem toInt_mul_of_lt (hnrow : 0 ≤ nrow) (hncol : 0 ≤ ncol)
    (hfit : nrow.toInt * ncol.toInt < 2 ^ 63) : (nrow * ncol).toInt = nrow.toInt * ncol.toInt := by
  have hpos : 0 ≤ nrow.toInt * ncol.toInt :=
    mul_nonneg (Int64.le_iff_toInt_le.1 hnrow) (Int64.le_iff_toInt_le.1 hncol)
  rw [Int64.toInt_mul]
  exact Int.bmod_eq_of_le (by omega) (by omega)

/-- There is room for all places if there is, and their number does not wrap around. -/
theorem fits_mul_iff (hnrow : 0 ≤ nrow) (hncol : 0 ≤ ncol)
    (hfit : nrow.toInt * ncol.toInt < 2 ^ 63) :
    fits (nrow * ncol) ↔ nrow.toInt * ncol.toInt ≤ capacity.toInt := by
  have hmul := toInt_mul_of_lt hnrow hncol hfit
  have hpos : 0 ≤ nrow.toInt * ncol.toInt :=
    mul_nonneg (Int64.le_iff_toInt_le.1 hnrow) (Int64.le_iff_toInt_le.1 hncol)
  simp only [fits, Bool.and_eq_true, decide_eq_true_eq, Int64.le_iff_toInt_le, hmul]
  exact ⟨And.right, fun h => ⟨hpos, h⟩⟩

theorem offsets_full (hnrow : 0 ≤ nrow) (hncol : 0 ≤ ncol) (hroom : ncol.toInt < capacity.toInt) :
    (full nrow ncol).offsets = (List.range (ncol.toNatClampNeg + 1)).map fun c =>
      Int64.ofNat (c * nrow.toNatClampNeg) := by
  rw [toInt_capacity] at hroom
  rw [full, toNatClampNeg_add_one hncol (by omega)]
  refine List.map_congr_left fun c _ => ?_
  rw [Int64.ofNat_mul, Int64.ofNat_toNatClampNeg nrow hnrow]

/-- The number of places, in numbers without bound. -/
theorem mul_toNatClampNeg_lt (hnrow : 0 ≤ nrow) (hncol : 0 ≤ ncol) :
    nrow.toInt * ncol.toInt < 2 ^ 63 ↔ ncol.toNatClampNeg * nrow.toNatClampNeg < 2 ^ 63 := by
  rw [Int64.toInt_eq_toNatClampNeg hnrow, Int64.toInt_eq_toNatClampNeg hncol, mul_comm]
  exact_mod_cast Iff.rfl

theorem getElem?_offsets_full (hnrow : 0 ≤ nrow) (hncol : 0 ≤ ncol)
    (hroom : ncol.toInt < capacity.toInt) {c : Nat} (hc : c ≤ ncol.toNatClampNeg) :
    (full nrow ncol).offsets[c]? = some (Int64.ofNat (c * nrow.toNatClampNeg)) := by
  rw [offsets_full hnrow hncol hroom, List.getElem?_map, List.getElem?_range (by omega),
    Option.map_some]

theorem drop_take_flatten_replicate {α : Type} (xs : List α) {n c : Nat} (hc : c < n) :
    ((List.replicate n xs).flatten.drop (c * xs.length)).take xs.length = xs := by
  obtain ⟨d, rfl⟩ := Nat.exists_eq_add_of_lt hc
  have hsplit : (List.replicate (c + d + 1) xs).flatten =
      (List.replicate c xs).flatten ++ (xs ++ (List.replicate d xs).flatten) := by
    rw [Nat.add_assoc, List.replicate_add, List.flatten_append, List.replicate_succ,
      List.flatten_cons]
  rw [hsplit, List.drop_left' (by simp), List.take_left' rfl]

theorem inOrder_range (hnrow : 0 ≤ nrow) :
    InOrder nrow ((List.range nrow.toNatClampNeg).map Int64.ofNat) := by
  have hbound := Int64.toNatClampNeg_lt nrow
  refine ⟨fun r hr => ?_, ?_⟩
  · obtain ⟨k, hk, rfl⟩ := List.mem_map.1 hr
    have hk := List.mem_range.1 hk
    rw [← Int64.ofNat_toNatClampNeg nrow hnrow, Int64.ofNat_lt_iff_lt (by omega) (by omega)]
    exact ⟨Int64.zero_le_ofNat_of_lt (by omega), by simpa using hk⟩
  · rw [List.pairwise_map]
    refine List.pairwise_lt_range.imp_of_mem fun {a b} ha hb hab => ?_
    have ha := List.mem_range.1 ha
    have hb := List.mem_range.1 hb
    rwa [Int64.ofNat_lt_iff_lt (by omega) (by omega)]

theorem wellFormed_full (hnrow : 0 ≤ nrow) (hncol : 0 ≤ ncol)
    (hroom : ncol.toInt < capacity.toInt) (hfit : nrow.toInt * ncol.toInt < 2 ^ 63) :
    (full nrow ncol).WellFormed := by
  rw [mul_toNatClampNeg_lt hnrow hncol] at hfit
  have hlt : ∀ {c}, c ≤ ncol.toNatClampNeg → c * nrow.toNatClampNeg < 2 ^ 63 := fun hc =>
    (Nat.mul_le_mul_right _ hc).trans_lt hfit
  have hoffset : ∀ {c}, c ≤ ncol.toNatClampNeg →
      (full nrow ncol).offset c = c * nrow.toNatClampNeg := fun hc => by
    rw [offset_of_getElem? (getElem?_offsets_full hnrow hncol hroom hc),
      Int64.toNatClampNeg_ofNat_of_lt (hlt hc)]
  have hlen : (full nrow ncol).offsets.length = ncol.toNatClampNeg + 1 := by
    rw [offsets_full hnrow hncol hroom, List.length_map, List.length_range]
  refine ⟨⟨hnrow, hncol, hlen, ?_, ?_⟩, ?_, fun c hc => ?_⟩
  · rw [List.head?_eq_getElem?, getElem?_offsets_full hnrow hncol hroom (Nat.zero_le _),
      Nat.zero_mul]
    rfl
  · rw [List.getLast?_eq_getElem?, hlen, Nat.add_sub_cancel,
      getElem?_offsets_full hnrow hncol hroom (Nat.le_refl _), nnz_full, Option.map_some,
      Int64.toInt_ofNat_of_lt hfit]
  · rw [offsets_full hnrow hncol hroom, List.pairwise_map]
    refine List.pairwise_lt_range.imp_of_mem fun {a b} ha hb hab => ?_
    have ha := List.mem_range.1 ha
    have hb := List.mem_range.1 hb
    rw [Int64.ofNat_le_iff_le (hlt (by omega)) (hlt (by omega))]
    exact Nat.mul_le_mul_right _ hab.le
  · have hc : c < ncol.toNatClampNeg := hc
    have hcolumn : (full nrow ncol).column c = (List.range nrow.toNatClampNeg).map Int64.ofNat := by
      have hstretch := drop_take_flatten_replicate
        ((List.range nrow.toNatClampNeg).map Int64.ofNat) hc
      rw [List.length_map, List.length_range] at hstretch
      rw [column, hoffset hc.le, hoffset hc, Nat.succ_mul, Nat.add_sub_cancel_left]
      exact hstretch
    rw [hcolumn]
    exact inOrder_range hnrow

/-! ## What the constructors answer -/

/-- What a constructor should answer : an inconsistency, or a well-formed pattern. -/
def Proper (r : Result Pattern) : Prop :=
  (∃ cause, r = .inconsistent cause) ∨ ∃ p, r = .ok p ∧ p.WellFormed

theorem proper_inconsistent (cause : Inconsistency) : Proper (.inconsistent cause) :=
  .inl ⟨cause, rfl⟩

theorem not_proper_fault (cause : Fault) : ¬Proper (.fault cause) := by
  rintro (⟨_, h⟩ | ⟨_, h, _⟩) <;> cases h

theorem proper_ok_iff : Proper (.ok p) ↔ p.WellFormed := by
  refine ⟨?_, fun h => .inr ⟨p, rfl, h⟩⟩
  rintro (⟨_, h⟩ | ⟨_, h, hp⟩)
  · cases h
  · rwa [Except.ok.inj h]

theorem proper_ofColumns_iff {offsets rows : List Int64} (hoffsets : offsets.length < 2 ^ 63)
    (hrows : rows.length < 2 ^ 63) :
    Proper (ofColumns nrow ncol offsets rows) ↔
      ¬(Framed { nrow, ncol, offsets, rows } ∧ Overruns nrow rows offsets) := by
  rw [← ofColumns_fault_iff hoffsets hrows]
  rcases ofColumns_cases nrow ncol hoffsets hrows with ⟨p, h⟩ | h | ⟨cause, h⟩
  · rw [h, proper_ok_iff]
    exact iff_of_true ((ofColumns_ok_iff hoffsets hrows).1 h).2 (by rintro ⟨⟩)
  · rw [h]
    exact iff_of_false (not_proper_fault _) (fun hne => hne rfl)
  · rw [h]
    exact iff_of_true (proper_inconsistent cause) (by rintro ⟨⟩)

theorem proper_ofCells_iff {cells : List Cell} (hcells : cells.length < 2 ^ 63) :
    Proper (ofCells nrow ncol cells) ↔ (∃ cell ∈ cells, ¬cell.inRange nrow ncol) ∨
      0 ≤ nrow ∧ 0 ≤ ncol ∧ ncol.toInt < capacity.toInt := by
  by_cases hrange : ∀ cell ∈ cells, cell.inRange nrow ncol
  · have hnone : ¬∃ cell ∈ cells, ¬cell.inRange nrow ncol := fun ⟨cell, hcell, hout⟩ =>
      hout (hrange cell hcell)
    rw [or_iff_right hnone]
    by_cases hfits : fits (ncol + 1)
    · have hp := ofCells_ok_iff.2 ⟨hrange, hfits, rfl⟩
      rw [hp, proper_ok_iff]
      constructor
      · intro h
        exact ⟨h.nrow_nonneg, h.ncol_nonneg, (fits_add_one_iff h.ncol_nonneg).1 hfits⟩
      · rintro ⟨hnrow, hncol, -⟩
        exact wellFormed_ofCells hp hnrow hncol hcells
    · rw [ofCells_of_not_fits hrange hfits]
      refine iff_of_false (not_proper_fault _) ?_
      rintro ⟨-, hncol, hroom⟩
      exact hfits ((fits_add_one_iff hncol).2 hroom)
  · push Not at hrange
    obtain ⟨cell, hcell, hout⟩ := hrange
    obtain ⟨cause, h⟩ := ofCells_of_not_inRange hcell hout
    rw [h]
    exact iff_of_true (proper_inconsistent cause) (.inl ⟨cell, hcell, hout⟩)

theorem proper_dense_iff : Proper (dense nrow ncol) ↔
    0 ≤ nrow ∧ 0 ≤ ncol ∧ ncol.toInt < capacity.toInt ∧
      nrow.toInt * ncol.toInt ≤ capacity.toInt := by
  rw [dense]
  split_ifs with hfits
  · rw [Bool.and_eq_true] at hfits
    rw [proper_ok_iff]
    constructor
    · intro h
      have hnrow : 0 ≤ nrow := h.nrow_nonneg
      have hncol : 0 ≤ ncol := h.ncol_nonneg
      have hlt := h.nnz_lt
      rw [nnz_full, ← mul_toNatClampNeg_lt hnrow hncol] at hlt
      exact ⟨hnrow, hncol, (fits_add_one_iff hncol).1 hfits.1,
        (fits_mul_iff hnrow hncol hlt).1 hfits.2⟩
    · rintro ⟨hnrow, hncol, hroom, hmul⟩
      exact wellFormed_full hnrow hncol hroom (hmul.trans_lt (by decide))
  · refine iff_of_false (not_proper_fault _) ?_
    rintro ⟨hnrow, hncol, hroom, hmul⟩
    refine hfits (Bool.and_eq_true _ _ ▸ ⟨(fits_add_one_iff hncol).2 hroom, ?_⟩)
    exact (fits_mul_iff hnrow hncol (hmul.trans_lt (by decide))).2 hmul

theorem ofCompressed_of_length_lt {list : List Int64} (h : list.length < 3) :
    ∃ cause, ofCompressed list = .inconsistent cause := by
  match list with
  | [] => exact ⟨_, rfl⟩
  | [_] => exact ⟨_, rfl⟩
  | [_, _] => exact ⟨_, rfl⟩
  | _ :: _ :: _ :: _ =>
    simp only [List.length_cons] at h
    omega

/-- The place at which the offsets of a list end, if it does not wrap around. -/
theorem toInt_cut (hncol : 0 ≤ ncol) :
    (2 + ncol + 1).toInt =
      if ncol.toInt + 3 < 2 ^ 63 then ncol.toInt + 3 else ncol.toInt + 3 - 2 ^ 64 := by
  have hpos := Int64.le_iff_toInt_le.1 hncol
  have hlt := Int64.toInt_lt ncol
  have hone : (1 : Int64).toInt = 1 := rfl
  have htwo : (2 : Int64).toInt = 2 := rfl
  have hzero : (0 : Int64).toInt = 0 := rfl
  simp only [Int64.toInt_add, hone, htwo, hzero, Int.bmod_def] at *
  split_ifs <;> omega

/-- A list that is not the short form of a pattern with every place is cut into offsets and rows, if
it is long enough and the place of the cut does not wrap around. -/
theorem ofCompressed_cases (nrow ncol : Int64) {rest : List Int64} (hrest : rest ≠ [])
    (hshort : ¬(rest = [1] ∧ 0 < nrow * ncol)) (hlen : rest.length + 2 < 2 ^ 63) :
    (2 ^ 63 ≤ ncol.toInt + 3 ∧ ofCompressed (nrow :: ncol :: rest) = .fault .outOfRange) ∨
    (ncol.toInt + 3 < 2 ^ 63 ∧ (ncol < 0 ∨ rest.length < ncol.toNatClampNeg + 1) ∧
      ∃ cause, ofCompressed (nrow :: ncol :: rest) = .inconsistent cause) ∨
    (ncol.toInt + 3 < 2 ^ 63 ∧ 0 ≤ ncol ∧ ncol.toNatClampNeg + 1 ≤ rest.length ∧
      ofCompressed (nrow :: ncol :: rest) = ofColumns nrow ncol
        (rest.take (ncol.toNatClampNeg + 1)) (rest.drop (ncol.toNatClampNeg + 1))) := by
  have hshort' : (rest = [1] && 0 < nrow * ncol) = false := by simpa using hshort
  have hcount : (Int64.ofNat (nrow :: ncol :: rest).length).toInt = (rest.length + 2 : Nat) :=
    Int64.toInt_ofNat_of_lt hlen
  unfold ofCompressed
  simp only [hrest, if_false, hshort', Bool.false_eq_true]
  by_cases hncol : 0 ≤ ncol
  · have hcast := Int64.toInt_eq_toNatClampNeg hncol
    have hbound := Int64.toNatClampNeg_lt ncol
    have hcut := toInt_cut hncol
    have hzero : (0 : Int64).toInt = 0 := rfl
    simp only [Int64.not_lt.2 hncol, decide_false, Bool.false_or, decide_eq_true_eq,
      Int64.lt_iff_toInt_lt, hcount, hzero]
    by_cases hwrap : ncol.toInt + 3 < 2 ^ 63
    · rw [if_pos hwrap] at hcut
      rw [hcut]
      by_cases hlong : ncol.toNatClampNeg + 1 ≤ rest.length
      · have hsucc : (ncol + 1).toNatClampNeg = ncol.toNatClampNeg + 1 :=
          toNatClampNeg_add_one hncol (by omega)
        rw [if_neg (by omega), if_neg (by omega), hsucc]
        exact .inr (.inr ⟨hwrap, hncol, hlong, rfl⟩)
      · rw [if_pos (by omega)]
        exact .inr (.inl ⟨hwrap, .inr (by omega), _, rfl⟩)
    · rw [if_neg hwrap] at hcut
      rw [hcut, if_neg (by omega), if_pos (by omega)]
      exact .inl ⟨by omega, rfl⟩
  · have hneg := Int64.not_le.1 hncol
    have hlt : ncol.toInt < 0 := Int64.lt_iff_toInt_lt.1 hneg
    simp only [hneg, decide_true, Bool.true_or, if_true]
    exact .inr (.inl ⟨by omega, .inl trivial, _, rfl⟩)

theorem proper_ofCompressed_iff {rest : List Int64} (hrest : rest ≠ [])
    (hshort : ¬(rest = [1] ∧ 0 < nrow * ncol)) (hlen : rest.length + 2 < 2 ^ 63) :
    Proper (ofCompressed (nrow :: ncol :: rest)) ↔
      ncol.toInt + 3 < 2 ^ 63 ∧ ¬(Framed { nrow, ncol
                                           offsets := rest.take (ncol.toNatClampNeg + 1)
                                           rows := rest.drop (ncol.toNatClampNeg + 1) } ∧
        Overruns nrow (rest.drop (ncol.toNatClampNeg + 1))
          (rest.take (ncol.toNatClampNeg + 1))) := by
  rcases ofCompressed_cases nrow ncol hrest hshort hlen with
    ⟨hwrap, h⟩ | ⟨hwrap, hbad, cause, h⟩ | ⟨hwrap, -, -, h⟩
  · rw [h]
    exact iff_of_false (not_proper_fault _) fun hc => by omega
  · rw [h]
    refine iff_of_true (proper_inconsistent cause) ⟨hwrap, fun hc => ?_⟩
    rcases hbad with hneg | hshort
    · exact Int64.not_lt.2 hc.1.ncol_nonneg hneg
    · have hcount : (rest.take (ncol.toNatClampNeg + 1)).length = ncol.toNatClampNeg + 1 :=
        hc.1.length_offsets
      rw [List.length_take] at hcount
      omega
  · have htake := List.length_take_le (ncol.toNatClampNeg + 1) rest
    rw [h, proper_ofColumns_iff (by rw [List.length_take]; omega) (by rw [List.length_drop]; omega)]
    exact ⟨fun hc => ⟨hwrap, hc⟩, And.right⟩

/-- The inputs for which the constructors answer with an inconsistency or with a well-formed
pattern. Columns must not run over the end of the rows; cells need sizes that are not negative, and
room for the offsets, unless one of them is out of range; of the compressed lists, the short form
needs the same and room for all places, and the long form must have a place at which its offsets
end. -/
theorem constructors_proper_iff (nrow ncol : Int64) {offsets rows rest : List Int64}
    {cells : List Cell} (hoffsets : offsets.length < 2 ^ 63) (hrows : rows.length < 2 ^ 63)
    (hcells : cells.length < 2 ^ 63) (hlist : rest.length + 2 < 2 ^ 63) :
    (Proper (ofColumns nrow ncol offsets rows) ↔
      ¬(Framed { nrow, ncol, offsets, rows } ∧ Overruns nrow rows offsets)) ∧
    (Proper (ofCells nrow ncol cells) ↔ (∃ cell ∈ cells, ¬cell.inRange nrow ncol) ∨
      0 ≤ nrow ∧ 0 ≤ ncol ∧ ncol.toInt < capacity.toInt) ∧
    (∀ list : List Int64, list.length < 3 → Proper (ofCompressed list)) ∧
    (rest ≠ [] → (Proper (ofCompressed (nrow :: ncol :: rest)) ↔
      if rest = [1] ∧ 0 < nrow * ncol then
        0 ≤ nrow ∧ 0 ≤ ncol ∧ ncol.toInt < capacity.toInt ∧
          nrow.toInt * ncol.toInt ≤ capacity.toInt
      else
        ncol.toInt + 3 < 2 ^ 63 ∧
          ¬(Framed { nrow, ncol
                     offsets := rest.take (ncol.toNatClampNeg + 1)
                     rows := rest.drop (ncol.toNatClampNeg + 1) } ∧
            Overruns nrow (rest.drop (ncol.toNatClampNeg + 1))
              (rest.take (ncol.toNatClampNeg + 1))))) := by
  refine ⟨proper_ofColumns_iff hoffsets hrows, proper_ofCells_iff hcells, fun list hshort => ?_,
    fun hrest => ?_⟩
  · obtain ⟨cause, h⟩ := ofCompressed_of_length_lt hshort
    rw [h]
    exact proper_inconsistent cause
  · split_ifs with hshort
    · obtain ⟨rfl, hpos⟩ := hshort
      have hdense : ofCompressed [nrow, ncol, 1] = dense nrow ncol := by simp [ofCompressed, hpos]
      rw [hdense, proper_dense_iff]
    · exact proper_ofCompressed_iff hrest hshort hlist

theorem constructors_proper_diagonal :
    Proper (ofColumns 2 2 [0, 1, 2] [0, 1]) ∧ Proper (ofCells 2 2 [⟨1, 1⟩, ⟨0, 0⟩, ⟨1, 1⟩]) ∧
      Proper (ofCompressed [2, 2]) ∧ Proper (ofCompressed [2, 2, 0, 1, 2, 0, 1]) := by
  have hrows : ¬Overruns 2 [0, 1] [0, 1, 2] := by
    rw [overruns_cons, overruns_cons]
    rintro (⟨-, h, -⟩ | ⟨-, ⟨-, h, -⟩ | ⟨-, h⟩⟩)
    · exact absurd h (by decide)
    · exact absurd h (by decide)
    · exact not_overruns_singleton h
  obtain ⟨hcolumns, hcells, hshort, hlong⟩ :=
    @constructors_proper_iff 2 2 [0, 1, 2] [0, 1] [0, 1, 2, 0, 1] [⟨1, 1⟩, ⟨0, 0⟩, ⟨1, 1⟩]
      (by decide) (by decide) (by decide) (by decide)
  refine ⟨hcolumns.2 fun h => hrows h.2, hcells.2 (.inr (by decide)), hshort _ (by decide), ?_⟩
  rw [hlong (by decide), if_neg (by decide)]
  exact ⟨by decide, fun h => hrows h.2⟩

/-- Inputs for which the constructors run out of rows, make a list of a negative length, give a
pattern with negative sizes, or cut a list beyond its end. -/
theorem constructors_not_proper :
    ¬Proper (ofColumns 2 2 [0, 5, 2] [0, 1]) ∧ ¬Proper (ofCells 0 (-2) []) ∧
      ¬Proper (ofCompressed [-1, -1, 1]) ∧ ¬Proper (ofCompressed [0, 9223372036854775807, 0]) := by
  refine ⟨?_, ?_, ?_, ?_⟩ <;> rintro (⟨cause, h⟩ | ⟨p, h, hp⟩)
  · cases h
  · cases h
  · cases h
  · cases h
  · cases h
  · obtain rfl := Except.ok.inj h
    exact absurd hp (by decide)
  · cases h
  · cases h

end Tangent.Pattern
