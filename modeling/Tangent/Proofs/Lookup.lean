import Mathlib
import Tangent.Proofs.CellSets
import Tangent.Proofs.Densify

/-!
# Lookup and enumeration

There are two ways to the nonzeros of a pattern: to walk through all of them, and to ask for one by
its place. In a well-formed pattern both always succeed, and they agree
(`Pattern.find_agrees_with_walk`): a place is found exactly if the walk passes it, with the number
that it has there. So a matrix has a node at exactly the places of its pattern
(`SparseMatrix.get_eq_get?`, `SparseMatrix.get?_eq_some_iff`), and the pattern has every place
exactly if every place is found (`Pattern.WellFormed.isDense_iff_find?`).
-/

namespace Tangent

/-- The first cell lies in an earlier column, or in the same column and an earlier row. -/
def Cell.Before (a b : Cell) : Prop :=
  a.col < b.col ∨ a.col = b.col ∧ a.row < b.row

theorem Cell.before_of_le {a b : Cell} (h : a.le b) (hne : a ≠ b) : a.Before b := by
  rcases Int64.lt_or_eq_of_le (Cell.col_le_of_le h) with hcol | hcol
  · exact .inl hcol
  · exact .inr ⟨hcol, Cell.row_lt_of_le h hne hcol⟩

namespace Pattern

variable {p : Pattern} {r c : Int64} {k : Nat}

theorem find?_eq_some_iff : p.find? r c = some k ↔ p.find r c = .ok (k, true) := by
  unfold find?
  split
  · next k' hfind => simp [hfind]
  · next hother =>
    refine iff_of_false (by simp) fun hfind => ?_
    exact hother k hfind

namespace WellFormed

/-- Every place can be asked for. -/
theorem exists_find (h : p.WellFormed) (r c : Int64) :
    ∃ k found, p.find r c = .ok (k, found) := by
  by_cases hout : c < 0 || p.ncol ≤ c
  · exact ⟨0, false, by rw [find, if_pos hout]⟩
  · obtain ⟨col, hcol, rfl⟩ := h.mem_columns.1 (by simpa using hout)
    exact ⟨_, _, h.find_of_mem hcol⟩

theorem find_iff (h : p.WellFormed) :
    p.find r c = .ok (k, true) ↔ { index := k, cell := { row := r, col := c } } ∈ p.entries := by
  rw [← Pattern.find?_eq_some_iff, h.find?_eq_some_iff]
  constructor
  · rintro ⟨e, he, rfl, hcell⟩
    rwa [← hcell]
  · exact fun he => ⟨_, he, rfl, rfl⟩

theorem pairwise_before (h : p.WellFormed) : p.cells.Pairwise Cell.Before :=
  h.pairwise_cells.imp fun hab => Cell.before_of_le hab.1 hab.2

/-! ## Patterns with every place -/

/-- A column in which every row is found has as many nonzeros as there are rows. -/
theorem length_column_of_find? (h : p.WellFormed) {col : Nat} (hcol : col < p.columns)
    (hfound : ∀ row < p.nrow.toNatClampNeg, ∃ k,
      p.find? (Int64.ofNat row) (Int64.ofNat col) = some k) :
    (p.column col).length = p.nrow.toNatClampNeg := by
  refine Nat.le_antisymm (h.inOrder col hcol).length_le ?_
  have hnodup : ((List.range p.nrow.toNatClampNeg).map Int64.ofNat).Nodup :=
    (inOrder_range h.nrow_nonneg).increasing.imp Int64.ne_of_lt
  have hsubset : (List.range p.nrow.toNatClampNeg).map Int64.ofNat ⊆ p.column col := by
    intro r hr
    obtain ⟨row, hrow, rfl⟩ := List.mem_map.1 hr
    obtain ⟨k, hk⟩ := hfound row (List.mem_range.1 hrow)
    exact List.mem_of_getElem? ((h.find?_of_mem hcol).1 hk).2
  simpa using (List.subperm_of_subset hnodup hsubset).length_le

/-- There are as many nonzeros as places if every place is found. -/
theorem nnz_eq_of_find? (h : p.WellFormed)
    (hfound : ∀ col < p.columns, ∀ row < p.nrow.toNatClampNeg, ∃ k,
      p.find? (Int64.ofNat row) (Int64.ofNat col) = some k) :
    p.nnz = p.columns * p.nrow.toNatClampNeg := by
  have hlengths : (List.range p.columns).map (List.length ∘ p.column) =
      (List.range p.columns).map fun _ => p.nrow.toNatClampNeg :=
    List.map_congr_left fun col hcol =>
      h.length_column_of_find? (List.mem_range.1 hcol) (hfound col (List.mem_range.1 hcol))
  rw [nnz, ← h.flatten_columns, List.length_flatten, List.map_map, hlengths]
  simp

theorem isDense_iff_find? (h : p.WellFormed) (hfit : p.EntriesFit) :
    p.isDense ↔ ∀ r c, Cell.inRange p.nrow p.ncol { row := r, col := c } →
      ∃ k, p.find? r c = some k := by
  rw [h.isDense_iff hfit]
  constructor
  · intro hnnz r c hrc
    exact ⟨_, h.find?_of_nnz_eq hnnz hrc⟩
  · intro hfound
    refine h.nnz_eq_of_find? fun col hcol row hrow => hfound _ _ ?_
    have hmem := List.mem_map_of_mem (f := Int64.ofNat) (List.mem_range.2 hrow)
    exact Cell.inRange_iff.2 ⟨(inOrder_range h.nrow_nonneg).inRange _ hmem,
      h.mem_columns.2 ⟨col, hcol, rfl⟩⟩

end WellFormed

end Pattern

/-! ## Matrices -/

namespace SparseMatrix

variable {K : Type} {m : SparseMatrix K} {r c : Int64}

/-- What is read from a matrix is the node at the place. -/
theorem get_eq_get? (h : m.pattern.WellFormed) (hm : m.Filled) :
    m.get r c = .ok (m.get? r c) := by
  obtain ⟨k, found, hfind⟩ := h.exists_find r c
  rw [get, get?, Pattern.find?, hfind]
  cases found with
  | false => rfl
  | true =>
    have hlt : k < m.nonzeros.length :=
      (h.lt_nnz_of_find? (Pattern.find?_eq_some_iff.2 hfind)).trans_eq hm.symm
    simp only [bind, Except.bind, Option.bind, List.getElem?_eq_getElem hlt]
    rfl

theorem get?_eq_some_iff (h : m.pattern.WellFormed) {n : Node K} :
    m.get? r c = some n ↔
      ∃ k, { index := k, cell := { row := r, col := c } } ∈ m.pattern.entries ∧
        m.nonzeros[k]? = some n := by
  simp only [get?, Option.bind_eq_some_iff, Pattern.find?_eq_some_iff, h.find_iff]

theorem get?_eq_none_iff (h : m.pattern.WellFormed) (hm : m.Filled) :
    m.get? r c = none ↔
      ∀ k, { index := k, cell := { row := r, col := c } } ∉ m.pattern.entries := by
  simp only [get?, Option.bind_eq_none_iff, Pattern.find?_eq_some_iff, h.find_iff]
  refine forall_congr' fun k => ⟨fun hnone he => ?_, fun hnone he => absurd he hnone⟩
  have hlt := h.lt_nnz_of_find? (Pattern.find?_eq_some_iff.2 (h.find_iff.2 he))
  exact Nat.not_le_of_lt (hlt.trans_eq hm.symm) (List.getElem?_eq_none_iff.1 (hnone he))

end SparseMatrix

/-! ## Agreement -/

/-- To look up a place of a well-formed pattern is to look for it among all nonzeros. -/
theorem Pattern.find_agrees_with_walk (p : Pattern) (h : p.WellFormed) :
    ∃ entries, p.walk = .ok entries ∧
      entries.map (·.index) = List.range p.nnz ∧
      (entries.map (·.cell)).Nodup ∧
      (entries.map (·.cell)).Pairwise Cell.Before ∧
      (∀ r c, (∃ k found, p.find r c = .ok (k, found)) ∧
        ∀ k, p.find r c = .ok (k, true) ↔ ⟨k, r, c⟩ ∈ entries) ∧
      (∀ (K : Type) (m : SparseMatrix K), m.pattern = p → m.Filled →
        ∀ r c, ∃ node?, m.get r c = .ok node? ∧
          (∀ n, node? = some n ↔ ∃ k, ⟨k, r, c⟩ ∈ entries ∧ m.nonzeros[k]? = some n) ∧
          (node? = none ↔ ∀ k, ⟨k, r, c⟩ ∉ entries)) ∧
      (p.EntriesFit → (p.isDense ↔ ∀ r c, Cell.inRange p.nrow p.ncol ⟨r, c⟩ →
        ∃ k, p.find r c = .ok (k, true))) := by
  refine ⟨p.entries, h.walk_eq, h.map_index_entries, ?_, h.pairwise_before,
    fun r c => ⟨h.exists_find r c, fun k => h.find_iff⟩, ?_, fun hfit => ?_⟩
  · exact h.pairwise_cells.imp And.right
  · rintro K m rfl hm r c
    exact ⟨_, SparseMatrix.get_eq_get? h hm, fun n => SparseMatrix.get?_eq_some_iff h,
      SparseMatrix.get?_eq_none_iff h hm⟩
  · simp only [h.isDense_iff_find? hfit, Pattern.find?_eq_some_iff]

/-- A matrix with two rows and three columns, the second of which is empty. -/
def gapped : SparseMatrix Float where
  sp := { key := 4, pattern := ⟨2, 3, [0, 1, 1, 3], [1, 0, 1]⟩ }
  nonzeros := [.symbol 1 "x", .symbol 2 "y", .symbol 3 "z"]

/-- The last place of the matrix is its last nonzero, nothing is found in its empty column, and so
not every place is a nonzero. -/
theorem Pattern.find_agrees_with_walk_gapped :
    gapped.pattern.WellFormed ∧ gapped.Filled ∧ gapped.pattern.EntriesFit ∧
      gapped.pattern.find 1 2 = .ok (2, true) ∧ gapped.get 1 2 = .ok (some (.symbol 3 "z")) ∧
      (∀ k, gapped.pattern.find 0 1 ≠ .ok (k, true)) ∧ gapped.get 0 1 = .ok none ∧
      ¬gapped.pattern.isDense := by
  have hwf : gapped.pattern.WellFormed := by decide
  have hfit : gapped.pattern.EntriesFit := by decide
  obtain ⟨entries, hwalk, -, -, -, hfind, hget, hdense⟩ :=
    Pattern.find_agrees_with_walk gapped.pattern hwf
  obtain rfl : gapped.pattern.entries = entries := Except.ok.inj (hwf.walk_eq.symm.trans hwalk)
  have hcell : (⟨0, 1⟩ : Cell) ∉ gapped.pattern.cells := by decide
  have hempty : ∀ k, ⟨k, 0, 1⟩ ∉ gapped.pattern.entries := fun k hk =>
    hcell (List.mem_map_of_mem hk)
  obtain ⟨last, hlast, hnode, -⟩ := hget Float gapped rfl rfl 1 2
  obtain ⟨gap, hnone, -, hgap⟩ := hget Float gapped rfl rfl 0 1
  refine ⟨hwf, rfl, hfit, ((hfind 1 2).2 2).2 (by decide), ?_, ?_, ?_, ?_⟩
  · rw [hlast, (hnode (.symbol 3 "z")).2 ⟨2, by decide, rfl⟩]
  · exact fun k hk => hempty k (((hfind 0 1).2 k).1 hk)
  · rw [hnone, hgap.2 hempty]
  · intro h
    obtain ⟨k, hk⟩ := (hdense hfit).1 h 0 1 (by decide)
    exact hempty k (((hfind 0 1).2 k).1 hk)

end Tangent
