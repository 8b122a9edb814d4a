import Mathlib
import Tangent.Proofs.Compression
import Tangent.Proofs.Entries

/-!
# Patterns are sets of cells

A well-formed pattern is its list of cells, sorted by columns and then by rows: the rows are those
of the cells (`WellFormed.map_row_cells`), and a column starts after as many cells as lie in earlier
columns (`WellFormed.offset_eq_countP`). A list of cells is sorted in one way only, so all that
matters about a list from which a pattern is built is which cells are in it
(`stored_congr`), and a pattern is built again from its own cells (`WellFormed.ofCells_cells`).
-/

namespace Tangent

/-- Sorted lists of different cells are equal if they have the same members. -/
theorem Cell.eq_of_mem_iff {cells cells' : List Cell}
    (h : cells.Pairwise fun a b => a.le b ∧ a ≠ b) (h' : cells'.Pairwise fun a b => a.le b ∧ a ≠ b)
    (hmem : ∀ cell, cell ∈ cells ↔ cell ∈ cells') : cells = cells' := by
  have hanti : Std.Antisymm fun a b : Cell => a.le b ∧ a ≠ b :=
    ⟨fun _ _ hab hba => Cell.le_antisymm hab.1 hba.1⟩
  have hirrefl : Std.Irrefl fun a b : Cell => a.le b ∧ a ≠ b := ⟨fun _ h => h.2 rfl⟩
  exact h.eq_of_mem_iff h' hmem

namespace Pattern

variable {p q : Pattern} {nrow ncol : Int64}

/-- The cells of the nonzeros, in the order in which they are stored. -/
def cells (p : Pattern) : List Cell :=
  p.entries.map (·.cell)

theorem mem_cells {cell : Cell} : cell ∈ p.cells ↔ p.HasCell cell := by
  simp [cells, HasCell]

theorem cells_eq (p : Pattern) : p.cells = (List.range p.columns).flatMap fun c =>
    (p.column c).map fun row => { row, col := Int64.ofNat c } := by
  rw [cells, entries, List.map_flatMap]
  refine congrArg (List.flatMap · _) (funext fun c => ?_)
  have hrows : p.column c = ((p.column c).zipIdx (p.offset c)).map (·.1) := by simp
  rw [entriesOf, List.map_map]
  conv_rhs => rw [hrows, List.map_map]
  rfl

/-! ## The list of cells -/

namespace WellFormed

theorem map_row_cells (h : p.WellFormed) : p.cells.map (·.row) = p.rows := by
  rw [cells_eq, List.map_flatMap, ← h.flatten_columns, List.flatMap]
  refine congrArg List.flatten (List.map_congr_left fun c _ => ?_)
  rw [List.map_map]
  exact List.map_id' _

theorem length_cells (h : p.WellFormed) : p.cells.length = p.nnz := by
  rw [cells, List.length_map, h.length_entries]

theorem getElem?_cells (h : p.WellFormed) {k : Nat} {cell : Cell} :
    p.cells[k]? = some cell ↔ { index := k, cell } ∈ p.entries := by
  rw [cells, List.getElem?_map, Option.map_eq_some_iff]
  constructor
  · rintro ⟨e, he, rfl⟩
    obtain ⟨hmem, rfl⟩ := h.getElem?_entries.1 he
    exact hmem
  · exact fun hmem => ⟨_, h.getElem?_entries.2 ⟨hmem, rfl⟩, rfl⟩

theorem inRange_cells (h : p.WellFormed) {cell : Cell} (hcell : cell ∈ p.cells) :
    cell.inRange p.nrow p.ncol := by
  obtain ⟨c, hc, hcol, hrow⟩ := hasCell_iff.1 (mem_cells.1 hcell)
  exact Cell.inRange_iff.2 ⟨(h.inOrder c hc).inRange _ hrow, h.mem_columns.2 ⟨c, hc, hcol⟩⟩

/-- The cells are sorted, and no two of them are the same. -/
theorem pairwise_cells (h : p.WellFormed) : p.cells.Pairwise fun a b => a.le b ∧ a ≠ b := by
  have hbound := Int64.toNatClampNeg_lt p.ncol
  rw [cells_eq, List.pairwise_flatMap]
  constructor
  · intro c hc
    rw [List.pairwise_map]
    refine (h.inOrder c (List.mem_range.1 hc)).increasing.imp fun {r s} hrs => ⟨?_, fun he => ?_⟩
    · simp [Cell.le, Int64.le_of_lt hrs]
    · exact Int64.lt_irrefl ((Cell.mk.inj he).1 ▸ hrs)
  · refine List.pairwise_lt_range.imp_of_mem fun {c d} hc hd hcd a ha b hb => ?_
    obtain ⟨r, -, rfl⟩ := List.mem_map.1 ha
    obtain ⟨s, -, rfl⟩ := List.mem_map.1 hb
    have hd := List.mem_range.1 hd
    rw [columns] at hd
    have hlt : Int64.ofNat c < Int64.ofNat d :=
      (Int64.ofNat_lt_iff_lt (by omega) (by omega)).2 hcd
    refine ⟨by simp [Cell.le, hlt], fun he => ?_⟩
    exact Int64.lt_irrefl ((Cell.mk.inj he).2 ▸ hlt)

theorem pairwise_cols (h : p.WellFormed) : (p.cells.map (·.col)).Pairwise (· ≤ ·) := by
  rw [List.pairwise_map]
  exact h.pairwise_cells.imp fun hab => Cell.col_le_of_le hab.1

/-- A nonzero stands before the start of a column exactly if it lies in an earlier one. -/
theorem lt_offset_iff (h : p.WellFormed) {c k : Nat} (hc : c ≤ p.columns) {cell : Cell}
    (hk : p.cells[k]? = some cell) : k < p.offset c ↔ cell.col < Int64.ofNat c := by
  have hbound := Int64.toNatClampNeg_lt p.ncol
  obtain ⟨d, hd, hcol, hstart, hrow⟩ := mem_entries.1 (h.getElem?_cells.1 hk)
  dsimp only at hcol hstart hrow
  have hstop : k < p.offset (d + 1) := by
    have hlt := (List.getElem?_eq_some_iff.1 hrow).1
    rw [h.length_column hd] at hlt
    omega
  have hcd : Int64.ofNat d < Int64.ofNat c ↔ d < c := by
    rw [columns] at hc hd
    exact Int64.ofNat_lt_iff_lt (by omega) (by omega)
  rw [hcol, hcd]
  constructor
  · intro hlt
    by_contra hle
    have := h.offset_mono (Nat.not_lt.1 hle) hd.le
    omega
  · intro hlt
    have := h.offset_mono (c := d + 1) hlt hc
    omega

theorem offset_eq_countP (h : p.WellFormed) {c : Nat} (hc : c ≤ p.columns) :
    p.offset c = (p.cells.map (·.col)).countP (· < Int64.ofNat c) := by
  have hiff : ∀ k < p.nnz, k < p.offset c ↔
      k < (p.cells.map (·.col)).countP (· < Int64.ofNat c) := by
    intro k hk
    obtain ⟨cell, hcell⟩ : ∃ cell, p.cells[k]? = some cell :=
      ⟨_, List.getElem?_eq_getElem (by rwa [h.length_cells])⟩
    have hcol : (p.cells.map (·.col))[k]? = some cell.col := by
      rw [List.getElem?_map, hcell, Option.map_some]
    rw [h.lt_offset_iff hc hcell, lt_countP_iff h.pairwise_cols hcol]
  have hle := h.offset_le_nnz hc
  have hle' := List.countP_le_length (p := (· < Int64.ofNat c)) (l := p.cells.map (·.col))
  rw [List.length_map, h.length_cells] at hle'
  -- Two numbers up to the number of nonzeros, with the same smaller numbers.
  rcases Nat.lt_trichotomy (p.offset c)
    ((p.cells.map (·.col)).countP (· < Int64.ofNat c)) with hlt | heq | hlt
  · have := (hiff _ (by omega)).2 hlt
    omega
  · exact heq
  · have := (hiff _ (by omega)).1 hlt
    omega

theorem offsets_eq_startsOf (h : p.WellFormed) :
    p.offsets = startsOf p.columns (p.cells.map (·.col)) := by
  refine List.ext_getElem? fun c => ?_
  rcases Nat.lt_or_ge p.columns c with hc | hc
  · rw [List.getElem?_eq_none (by rw [h.length_offsets]; omega),
      List.getElem?_eq_none (by rw [length_startsOf]; omega)]
  · obtain ⟨o, ho⟩ := h.getElem?_offsets hc
    have hlt : p.offset c < 2 ^ 63 := (h.offset_le_nnz hc).trans_lt h.nnz_lt
    rw [ho, getElem?_startsOf hc, ← h.offset_eq_countP hc, Option.some.injEq, ← Int64.toInt_inj,
      h.toInt_of_getElem? ho, Int64.toInt_ofNat_of_lt hlt]

end WellFormed

/-! ## Building from cells -/

theorem stored_of_pairwise {cells : List Cell} (h : cells.Pairwise fun a b => a.le b ∧ a ≠ b) :
    stored cells = cells :=
  Cell.eq_of_mem_iff (pairwise_lt_stored cells) h fun _ => mem_stored

/-- What is stored depends only on which cells there are. -/
theorem stored_congr {cells cells' : List Cell} (h : ∀ cell, cell ∈ cells ↔ cell ∈ cells') :
    stored cells = stored cells' :=
  Cell.eq_of_mem_iff (pairwise_lt_stored cells) (pairwise_lt_stored cells') fun cell => by
    rw [mem_stored, mem_stored, h]

theorem ofCells_congr {cells cells' : List Cell} (h : ∀ cell, cell ∈ cells ↔ cell ∈ cells')
    (hp : ofCells nrow ncol cells = .ok p) : ofCells nrow ncol cells' = .ok p := by
  rw [ofCells_ok_iff, stored_congr h] at hp
  exact ofCells_ok_iff.2 ⟨fun cell hcell => hp.1 cell ((h cell).2 hcell), hp.2⟩

theorem size_of_ofCells {cells : List Cell} (h : ofCells nrow ncol cells = .ok p) :
    p.nrow = nrow ∧ p.ncol = ncol := by
  obtain ⟨-, -, rfl⟩ := ofCells_ok_iff.1 h
  exact ⟨rfl, rfl⟩

/-- There is a pattern exactly if all cells are in range and there is room for the offsets. -/
theorem exists_ofCells_iff {cells : List Cell} (hncol : 0 ≤ ncol) :
    (∃ p, ofCells nrow ncol cells = .ok p) ↔
      (∀ cell ∈ cells, cell.inRange nrow ncol) ∧ ncol.toInt < capacity.toInt := by
  rw [← fits_add_one_iff hncol]
  constructor
  · rintro ⟨p, hp⟩
    obtain ⟨hcells, hfits, -⟩ := ofCells_ok_iff.1 hp
    exact ⟨hcells, hfits⟩
  · rintro ⟨hcells, hfits⟩
    exact ⟨_, ofCells_ok_iff.2 ⟨hcells, hfits, rfl⟩⟩

theorem Stored.ncol_lt (hs : p.Stored) (h : p.WellFormed) : p.ncol.toInt < capacity.toInt := by
  have hlen := hs.offsets
  rw [h.length_offsets, columns] at hlen
  rw [Int64.toInt_eq_toNatClampNeg h.ncol_nonneg]
  omega

/-- A pattern is built again from its cells. -/
theorem WellFormed.ofCells_cells (h : p.WellFormed) (hroom : p.ncol.toInt < capacity.toInt) :
    ofCells p.nrow p.ncol p.cells = .ok p := by
  refine ofCells_ok_iff.2 ⟨fun cell hcell => h.inRange_cells hcell,
    (fits_add_one_iff h.ncol_nonneg).2 hroom, ?_⟩
  rw [stored_of_pairwise h.pairwise_cells, if_neg (Int64.not_lt.2 h.ncol_nonneg), h.map_row_cells,
    ← columns, ← h.offsets_eq_startsOf]

/-- Well-formed patterns of one size with the same cells are equal. -/
theorem WellFormed.eq_of_hasCell_iff (hp : p.WellFormed) (hq : q.WellFormed)
    (hnrow : p.nrow = q.nrow) (hncol : p.ncol = q.ncol)
    (hcell : ∀ cell, p.HasCell cell ↔ q.HasCell cell) : p = q := by
  have hcells : p.cells = q.cells :=
    Cell.eq_of_mem_iff hp.pairwise_cells hq.pairwise_cells fun cell => by
      rw [mem_cells, mem_cells, hcell]
  have hoffsets : p.offsets = q.offsets := by
    rw [hp.offsets_eq_startsOf, hq.offsets_eq_startsOf, hcells, columns, columns, hncol]
  have hrows : p.rows = q.rows := by
    rw [← hp.map_row_cells, ← hq.map_row_cells, hcells]
  cases p
  cases q
  simp_all

theorem cells_ofCells {cells : List Cell} (h : ofCells nrow ncol cells = .ok p) (hnrow : 0 ≤ nrow)
    (hncol : 0 ≤ ncol) (hlen : cells.length < 2 ^ 63) : p.cells = stored cells := by
  have hwf := wellFormed_ofCells h hnrow hncol hlen
  refine Cell.eq_of_mem_iff hwf.pairwise_cells (pairwise_lt_stored cells) fun cell => ?_
  rw [mem_cells, hasCell_ofCells h hwf.nnz_lt, mem_stored]

/-! ## What cells and columns denote -/

theorem ofCells_inconsistent_iff {cells : List Cell} :
    (∃ cause, ofCells nrow ncol cells = .inconsistent cause) ↔
      ∃ cell ∈ cells, ¬cell.inRange nrow ncol := by
  refine ⟨fun ⟨cause, h⟩ => ?_, fun ⟨cell, hcell, hout⟩ => ofCells_of_not_inRange hcell hout⟩
  by_contra hrange
  push Not at hrange
  by_cases hfits : fits (ncol + 1)
  · rw [ofCells_ok_iff.2 ⟨hrange, hfits, rfl⟩] at h
    cases h
  · rw [ofCells_of_not_fits hrange hfits] at h
    cases h

theorem ofCells_fault_iff {cells : List Cell} (hncol : 0 ≤ ncol) :
    ofCells nrow ncol cells = .fault .outOfRange ↔
      (∀ cell ∈ cells, cell.inRange nrow ncol) ∧ capacity.toInt ≤ ncol.toInt := by
  rw [← Int.not_lt, ← fits_add_one_iff hncol]
  refine ⟨fun h => ?_, fun h => ofCells_of_not_fits h.1 h.2⟩
  have hrange : ∀ cell ∈ cells, cell.inRange nrow ncol := by
    by_contra hout
    push Not at hout
    obtain ⟨cause, hcause⟩ := ofCells_inconsistent_iff.2 hout
    rw [h] at hcause
    cases hcause
  refine ⟨hrange, fun hfits => ?_⟩
  rw [ofCells_ok_iff.2 ⟨hrange, hfits, rfl⟩] at h
  cases h

/-- Cells and columns denote sets of cells. For sizes that are not negative, a list with a cell out
of range is inconsistent, and any other list makes a pattern, unless there is no room for the
offsets. The pattern is well formed and has the given cells, and every list with the same cells
makes the same pattern. Columns make a pattern exactly if they are those of a well-formed one, and
the pattern is built again from its cells. -/
theorem patterns_denote_cells (hnrow : 0 ≤ nrow) (hncol : 0 ≤ ncol) {cells : List Cell}
    (hcells : cells.length < 2 ^ 63) {offsets rows : List Int64}
    (hoffsets : offsets.length < 2 ^ 63) (hrows : rows.length < 2 ^ 63) :
    ((∃ cause, ofCells nrow ncol cells = .inconsistent cause) ↔
      ∃ cell ∈ cells, ¬cell.inRange nrow ncol) ∧
    (ofCells nrow ncol cells = .fault .outOfRange ↔
      (∀ cell ∈ cells, cell.inRange nrow ncol) ∧ capacity.toInt ≤ ncol.toInt) ∧
    ((∀ cell ∈ cells, cell.inRange nrow ncol) → ncol.toInt < capacity.toInt →
      ∃ p, ofCells nrow ncol cells = .ok p ∧ p.WellFormed ∧ p.nrow = nrow ∧ p.ncol = ncol ∧
        (∀ cell, p.HasCell cell ↔ cell ∈ cells) ∧
        ∀ cells', (∀ cell, cell ∈ cells ↔ cell ∈ cells') → ofCells nrow ncol cells' = .ok p) ∧
    ((∃ p, ofColumns nrow ncol offsets rows = .ok p) ↔
      WellFormed { nrow, ncol, offsets, rows }) ∧
    ∀ p, ofColumns nrow ncol offsets rows = .ok p → p.Stored →
      ofCells p.nrow p.ncol p.cells = .ok p := by
  refine ⟨ofCells_inconsistent_iff, ofCells_fault_iff hncol, fun hrange hroom => ?_, ?_, ?_⟩
  · obtain ⟨p, hp⟩ := (exists_ofCells_iff hncol).2 ⟨hrange, hroom⟩
    have hwf := wellFormed_ofCells hp hnrow hncol hcells
    obtain ⟨hsize, hsize'⟩ := size_of_ofCells hp
    exact ⟨p, hp, hwf, hsize, hsize', hasCell_ofCells hp hwf.nnz_lt,
      fun cells' hsame => ofCells_congr hsame hp⟩
  · constructor
    · rintro ⟨p, hp⟩
      obtain ⟨rfl, hwf⟩ := (ofColumns_ok_iff hoffsets hrows).1 hp
      exact hwf
    · exact fun hwf => ⟨_, (ofColumns_ok_iff hoffsets hrows).2 ⟨rfl, hwf⟩⟩
  · intro p hp hstored
    have hwf := ((ofColumns_ok_iff hoffsets hrows).1 hp).2
    exact hwf.ofCells_cells (hstored.ncol_lt hwf)

/-- One set of cells, listed with a repetition and out of order, listed in order, and as columns. -/
theorem patterns_denote_cells_repeated :
    ∃ p, ofCells 3 3 [⟨2, 1⟩, ⟨0, 0⟩, ⟨2, 1⟩] = .ok p ∧ p.WellFormed ∧
      p.HasCell ⟨2, 1⟩ ∧ ¬p.HasCell ⟨1, 2⟩ ∧ ofCells 3 3 [⟨0, 0⟩, ⟨2, 1⟩] = .ok p ∧
      ofColumns 3 3 [0, 1, 2, 2] [0, 2] = .ok ⟨3, 3, [0, 1, 2, 2], [0, 2]⟩ ∧
      ofCells 3 3 [⟨0, 0⟩, ⟨2, 1⟩] = .ok ⟨3, 3, [0, 1, 2, 2], [0, 2]⟩ := by
  obtain ⟨-, -, hcells, -, hcolumns⟩ := @patterns_denote_cells 3 3 (by decide) (by decide)
    [⟨2, 1⟩, ⟨0, 0⟩, ⟨2, 1⟩] (by decide) [0, 1, 2, 2] [0, 2] (by decide) (by decide)
  obtain ⟨p, hp, hwf, -, -, hhas, hsame⟩ := hcells (by decide) (by decide)
  refine ⟨p, hp, hwf, (hhas _).2 (by decide), fun h => absurd ((hhas _).1 h) (by decide),
    hsame _ (by simp [or_comm]), rfl, ?_⟩
  exact hcolumns ⟨3, 3, [0, 1, 2, 2], [0, 2]⟩ rfl (by decide)

/-- Cells that are all in range, but make no pattern: there is no room for so many offsets, though
their number is a machine integer. -/
theorem ofCells_without_room :
    (0 : Int64) ≤ 4611686018427387904 ∧ (4611686018427387904 : Int64).toInt + 1 < 2 ^ 63 ∧
      (∀ cell ∈ ([] : List Cell), cell.inRange 0 4611686018427387904) ∧
      ¬∃ p, ofCells 0 4611686018427387904 [] = .ok p := by
  refine ⟨by decide, by decide, by simp, ?_⟩
  rw [exists_ofCells_iff (by decide)]
  exact fun h => absurd h.2 (by decide)

end Pattern

end Tangent
