import Mathlib
import Tangent.Proofs.Constructors
import Tangent.SparseMatrix

/-!
# Looking up entries

The entries of a well-formed pattern are numbered in the order in which they are listed
(`WellFormed.map_index_entries`), and `find?` gives the number of the entry at a place, if there is
one (`WellFormed.find?_eq_some_iff`). So a matrix with a node for every entry has a node at a place
exactly if there is an entry (`SparseMatrix.get?_entries`).
-/

namespace Tangent

namespace Pattern

variable {p : Pattern} {e : Entry} {r c : Int64} {k : Nat}

theorem mem_entriesOf {c : Nat} : e ∈ p.entriesOf c ↔ e.cell.col = Int64.ofNat c ∧
    p.offset c ≤ e.index ∧ (p.column c)[e.index - p.offset c]? = some e.cell.row := by
  obtain ⟨index, row, col⟩ := e
  simp only [entriesOf, List.mem_map, Prod.exists, List.mem_zipIdx_iff_le_and_getElem?_sub,
    Entry.mk.injEq, Cell.mk.injEq]
  constructor
  · rintro ⟨_, _, hrow, rfl, rfl, rfl⟩
    exact ⟨rfl, hrow⟩
  · rintro ⟨rfl, hrow⟩
    exact ⟨_, _, hrow, rfl, rfl, rfl⟩

theorem mem_entries : e ∈ p.entries ↔ ∃ c < p.columns, e.cell.col = Int64.ofNat c ∧
    p.offset c ≤ e.index ∧ (p.column c)[e.index - p.offset c]? = some e.cell.row := by
  simp only [entries, List.mem_flatMap, List.mem_range, mem_entriesOf]

namespace WellFormed

theorem map_index_entriesOf (h : p.WellFormed) {c : Nat} (hc : c < p.columns) :
    (p.entriesOf c).map (·.index) =
      ((List.range p.nnz).drop (p.offset c)).take (p.offset (c + 1) - p.offset c) := by
  have hle := h.offset_le_nnz (c := c + 1) hc
  have hmono := h.offset_mono (Nat.le_succ c) hc
  refine List.ext_getElem ?_ fun i hi _ => ?_
  · simp only [entriesOf, List.length_map, List.length_zipIdx, List.length_take, List.length_drop,
      List.length_range, h.length_column hc]
    omega
  · simp [entriesOf]

/-- The entries are numbered in the order in which they are listed. -/
theorem map_index_entries (h : p.WellFormed) : p.entries.map (·.index) = List.range p.nnz := by
  have hcolumns : p.entries.map (·.index) = ((List.range p.columns).map fun c =>
      ((List.range p.nnz).drop (p.offset c)).take (p.offset (c + 1) - p.offset c)).flatten := by
    rw [entries, List.map_flatMap, List.flatMap]
    refine congrArg List.flatten (List.map_congr_left fun c hc => ?_)
    exact h.map_index_entriesOf (List.mem_range.1 hc)
  rw [hcolumns, flatten_stretches _ _ h.offset_zero _ fun c hc => h.offset_mono (Nat.le_succ c) hc,
    h.offset_columns, List.take_of_length_le (by simp)]

theorem length_entries (h : p.WellFormed) : p.entries.length = p.nnz := by
  rw [← List.length_map (f := (·.index)), h.map_index_entries, List.length_range]

theorem getElem?_entries (h : p.WellFormed) :
    p.entries[k]? = some e ↔ e ∈ p.entries ∧ e.index = k := by
  have hindex : ∀ {j : Nat} {e' : Entry}, p.entries[j]? = some e' → e'.index = j := by
    intro j e' hj
    have hmap := congrArg (·[j]?) h.map_index_entries
    obtain ⟨hlt, -⟩ := List.getElem?_eq_some_iff.1 hj
    rw [h.length_entries] at hlt
    simpa [hj, hlt] using hmap
  constructor
  · exact fun hk => ⟨List.mem_of_getElem? hk, hindex hk⟩
  · rintro ⟨hmem, rfl⟩
    obtain ⟨j, hj⟩ := List.getElem?_of_mem hmem
    rwa [hindex hj]

theorem holdsColumn (h : p.WellFormed) {c : Nat} (hc : c < p.columns) : p.holdsColumn c := by
  obtain ⟨start, hstart⟩ := h.getElem?_offsets (Nat.le_of_lt hc)
  obtain ⟨stop, hstop⟩ : ∃ stop, p.offsets[c + 1]? = some stop := h.getElem?_offsets hc
  have hmono : p.offset c ≤ p.offset (c + 1) := h.offset_mono (Nat.le_succ c) hc
  have hle := h.offset_le_nnz (c := c + 1) hc
  have hnnz : (Int64.ofNat p.nnz).toInt = p.nnz := Int64.toInt_ofNat_of_lt h.nnz_lt
  simp only [Pattern.holdsColumn, hstart, hstop, Bool.and_eq_true, decide_eq_true_eq,
    Int64.le_iff_toInt_le, h.toInt_of_getElem? hstart, h.toInt_of_getElem? hstop, hnnz,
    Int64.toInt_zero]
  omega

theorem isReadable (h : p.WellFormed) : p.isReadable := by
  rw [Pattern.isReadable, List.all_eq_true]
  intro c hc
  rw [h.holdsColumn (List.mem_range.1 hc), Bool.or_true]

theorem walk_eq (h : p.WellFormed) : p.walk = .ok p.entries :=
  if_pos h.isReadable

end WellFormed

/-! ## Bisection -/

/-- Bisection finds the place that splits the rows into those before `r` and the others. Every row
that it reads on the way is there. -/
theorem bisect_eq {rows : List Int64} {lo hi : Nat}
    (hsplit : ∀ {j : Nat} {row : Int64}, rows[j]? = some row → (j < k ↔ row < r)) (hlo : lo ≤ k)
    (hhi : k ≤ hi) (hlen : hi ≤ rows.length) : bisect rows r lo hi = .ok k := by
  fun_induction bisect rows r lo hi with
  | case1 lo hi hlt mid hnone =>
    rw [List.getElem?_eq_none_iff] at hnone
    omega
  | case2 lo hi hlt mid row hrow hbefore ih =>
    have hmid := (hsplit hrow).2 hbefore
    exact ih hmid hhi hlen
  | case3 lo hi hlt mid row hrow hbefore ih =>
    have hmid := mt (hsplit hrow).1 hbefore
    exact ih hlo (by omega) (by omega)
  | case4 lo hi hdone => rw [show lo = k by omega]

/-- The place of `r` among increasing rows is the number of the smaller ones. -/
theorem bisect_eq_countP {rows : List Int64} (h : rows.Pairwise (· < ·)) :
    bisect rows r 0 rows.length = .ok (rows.countP (· < r)) :=
  bisect_eq (lt_countP_iff (h.imp Int64.le_of_lt)) (Nat.zero_le _) List.countP_le_length
    (Nat.le_refl _)

/-- In an increasing list, the elements before a member are the smaller ones. -/
theorem countP_lt_of_getElem? {rows : List Int64} (h : rows.Pairwise (· < ·)) {j : Nat}
    (hj : rows[j]? = some r) : rows.countP (· < r) = j := by
  have hsplit {i : Nat} {row : Int64} (hi : rows[i]? = some row) := lt_countP_iff (c := r)
    (h.imp Int64.le_of_lt) hi
  have hle : rows.countP (· < r) ≤ j := by
    simpa [Int64.lt_irrefl] using hsplit hj
  refine Nat.le_antisymm hle (Nat.le_of_not_lt fun hlt => ?_)
  obtain ⟨hjlen, rfl⟩ := List.getElem?_eq_some_iff.1 hj
  -- The element right after the smaller ones would be smaller than `r`.
  have hbefore := List.pairwise_iff_getElem.1 h _ j (hlt.trans hjlen) hjlen hlt
  exact Nat.lt_irrefl _ ((hsplit (List.getElem?_eq_getElem (hlt.trans hjlen))).2 hbefore)

/-- The columns of a pattern are the numbers from zero on. -/
theorem WellFormed.mem_columns (h : p.WellFormed) :
    (0 ≤ c ∧ c < p.ncol) ↔ ∃ col < p.columns, c = Int64.ofNat col := by
  have hncol := Int64.cast_toNatClampNeg p.ncol h.ncol_nonneg
  have hbound := Int64.toNatClampNeg_lt p.ncol
  constructor
  · rintro ⟨hzero, hlt⟩
    have hcol := Int64.cast_toNatClampNeg c hzero
    rw [Int64.lt_iff_toInt_lt] at hlt
    exact ⟨c.toNatClampNeg, by rw [columns]; omega, (Int64.ofNat_toNatClampNeg c hzero).symm⟩
  · rintro ⟨col, hcol, rfl⟩
    rw [columns] at hcol
    have hint := Int64.toInt_ofNat_of_lt (n := col) (by omega)
    rw [Int64.le_iff_toInt_le, Int64.lt_iff_toInt_lt, hint, Int64.toInt_zero]
    omega

/-- To look a place up in a column is to count the rows before it. -/
theorem WellFormed.find_of_mem (h : p.WellFormed) {col : Nat} (hcol : col < p.columns) :
    p.find r (Int64.ofNat col) = .ok (p.offset col + (p.column col).countP (· < r),
      (p.column col)[(p.column col).countP (· < r)]? == some r) := by
  obtain ⟨hzero, hlt⟩ := h.mem_columns.2 ⟨col, hcol, rfl⟩
  have hbound := Int64.toNatClampNeg_lt p.ncol
  have hnat : (Int64.ofNat col).toNatClampNeg = col :=
    Int64.toNatClampNeg_ofNat_of_lt (by rw [columns] at hcol; omega)
  have hin : ¬(Int64.ofNat col < 0 || p.ncol ≤ Int64.ofNat col) := by
    simpa using ⟨hzero, hlt⟩
  rw [find, if_neg hin, hnat, if_pos (h.holdsColumn hcol)]
  dsimp only
  rw [bisect_eq_countP (h.inOrder col hcol).increasing]
  rfl

theorem WellFormed.find?_of_mem (h : p.WellFormed) {col : Nat} (hcol : col < p.columns) :
    p.find? r (Int64.ofNat col) = some k ↔ p.offset col ≤ k ∧
      (p.column col)[k - p.offset col]? = some r := by
  rw [find?, h.find_of_mem hcol]
  constructor
  · intro hk
    split at hk
    · next heq =>
      obtain ⟨rfl, hr⟩ := Prod.mk.inj (Except.ok.inj heq)
      obtain rfl := Option.some.inj hk
      exact ⟨Nat.le_add_right _ _, by simpa using hr⟩
    · cases hk
  · rintro ⟨hle, hk⟩
    rw [countP_lt_of_getElem? (h.inOrder col hcol).increasing hk, hk, Nat.add_sub_cancel' hle]
    simp

/-- To look a place up is to find the entry there. -/
theorem WellFormed.find?_eq_some_iff (h : p.WellFormed) :
    p.find? r c = some k ↔ ∃ e ∈ p.entries, e.index = k ∧ e.cell = { row := r, col := c } := by
  constructor
  · intro hk
    have hin : 0 ≤ c ∧ c < p.ncol := by
      by_cases hout : c < 0 || p.ncol ≤ c
      · rw [find?, find, if_pos hout] at hk
        cases hk
      · simpa using hout
    obtain ⟨col, hcol, rfl⟩ := h.mem_columns.1 hin
    obtain ⟨hle, hrow⟩ := (h.find?_of_mem hcol).1 hk
    exact ⟨⟨k, r, Int64.ofNat col⟩, mem_entries.2 ⟨col, hcol, rfl, hle, hrow⟩, rfl, rfl⟩
  · rintro ⟨⟨index, _, _⟩, he, rfl, hcell⟩
    cases hcell
    obtain ⟨col, hcol, rfl, hentry⟩ := mem_entries.1 he
    exact (h.find?_of_mem hcol).2 hentry

/-- No two nonzeros have one cell. -/
theorem WellFormed.index_eq (h : p.WellFormed) {cell : Cell} {j k : Nat}
    (hj : { index := j, cell } ∈ p.entries) (hk : { index := k, cell } ∈ p.entries) : j = k := by
  have hfind := h.find?_eq_some_iff.2 ⟨_, hj, rfl, rfl⟩
  rw [h.find?_eq_some_iff.2 ⟨_, hk, rfl, rfl⟩] at hfind
  exact (Option.some.inj hfind).symm

end Pattern

namespace SparseMatrix

variable {K : Type} {m : SparseMatrix K}

/-- A matrix whose nodes are given cell by cell. -/
theorem get?_entries (h : m.pattern.WellFormed) {f : Cell → Node K}
    (hm : m.nonzeros = m.pattern.entries.map fun e => f e.cell) (r c : Int64) :
    m.get? r c =
      if m.pattern.HasCell { row := r, col := c } then some (f { row := r, col := c })
      else none := by
  rw [get?, hm]
  split_ifs with hcell
  · obtain ⟨e, he, hrc⟩ := hcell
    rw [h.find?_eq_some_iff.2 ⟨e, he, rfl, hrc⟩, Option.bind_some, List.getElem?_map,
      h.getElem?_entries.2 ⟨he, rfl⟩, Option.map_some, hrc]
  · rcases hfind : m.pattern.find? r c with _ | k
    · rfl
    · obtain ⟨e, he, -, hrc⟩ := h.find?_eq_some_iff.1 hfind
      exact absurd ⟨e, he, hrc⟩ hcell

end SparseMatrix

end Tangent
