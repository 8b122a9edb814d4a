import Mathlib
import Tangent.Pattern.Cells
import Tangent.Proofs.Offsets

/-!
# The cells of a pattern

A pattern that is built from cells, in any order and with any repetitions, has its structural
nonzeros at these cells and nowhere else (`Pattern.hasCell_ofCells`). The cells are sorted by
column, so a stored nonzero lies before the start of a column exactly if its own column comes before
that one (`Pattern.lt_countP_iff`).
-/

namespace Tangent

theorem Cell.le_trans (a b c : Cell) (hab : a.le b) (hbc : b.le c) : a.le c := by
  simp only [le, Bool.or_eq_true, Bool.and_eq_true, decide_eq_true_eq, beq_iff_eq,
    Int64.lt_iff_toInt_lt, Int64.le_iff_toInt_le, ← Int64.toInt_inj] at *
  omega

theorem Cell.le_total (a b : Cell) : a.le b || b.le a := by
  simp only [le, Bool.or_eq_true, Bool.and_eq_true, decide_eq_true_eq, beq_iff_eq,
    Int64.lt_iff_toInt_lt, Int64.le_iff_toInt_le, ← Int64.toInt_inj]
  omega

theorem Cell.col_le_of_le {a b : Cell} (h : a.le b) : a.col ≤ b.col := by
  simp only [le, Bool.or_eq_true, Bool.and_eq_true, decide_eq_true_eq, beq_iff_eq,
    Int64.lt_iff_toInt_lt, Int64.le_iff_toInt_le, ← Int64.toInt_inj] at *
  omega

theorem Cell.le_antisymm {a b : Cell} (hab : a.le b) (hba : b.le a) : a = b := by
  obtain ⟨r, c⟩ := a
  obtain ⟨r', c'⟩ := b
  simp only [le, Bool.or_eq_true, Bool.and_eq_true, decide_eq_true_eq, beq_iff_eq, Cell.mk.injEq,
    Int64.lt_iff_toInt_lt, Int64.le_iff_toInt_le, ← Int64.toInt_inj] at *
  omega

/-- Different cells of one column are ordered by their rows. -/
theorem Cell.row_lt_of_le {a b : Cell} (h : a.le b) (hne : a ≠ b) (hcol : a.col = b.col) :
    a.row < b.row := by
  have hrow : a.row ≠ b.row := fun hrow => hne (by cases a; cases b; simp_all)
  simp only [le, Bool.or_eq_true, Bool.and_eq_true, decide_eq_true_eq, beq_iff_eq, ne_eq,
    Int64.lt_iff_toInt_lt, Int64.le_iff_toInt_le, ← Int64.toInt_inj] at *
  omega

theorem Cell.inRange_iff {nrow ncol : Int64} {cell : Cell} :
    cell.inRange nrow ncol ↔ (0 ≤ cell.row ∧ cell.row < nrow) ∧ 0 ≤ cell.col ∧ cell.col < ncol := by
  simp [inRange, and_assoc]

namespace Pattern

/-! ## Columns -/

/-- There is a structural nonzero at the cell. -/
def HasCell (p : Pattern) (cell : Cell) : Prop :=
  ∃ e ∈ p.entries, e.cell = cell

instance (p : Pattern) : DecidablePred p.HasCell := fun cell =>
  inferInstanceAs (Decidable (∃ e ∈ p.entries, e.cell = cell))

theorem mem_column_iff {p : Pattern} {c : Nat} {row : Int64} :
    row ∈ p.column c ↔ ∃ k, p.offset c ≤ k ∧ k < p.offset (c + 1) ∧ p.rows[k]? = some row := by
  rw [column, List.mem_iff_getElem?]
  constructor
  · rintro ⟨k, hk⟩
    rw [List.getElem?_take, Option.ite_none_right_eq_some, List.getElem?_drop] at hk
    exact ⟨p.offset c + k, by omega, by omega, hk.2⟩
  · rintro ⟨k, hstart, hstop, hk⟩
    refine ⟨k - p.offset c, ?_⟩
    rw [List.getElem?_take_of_lt (by omega), List.getElem?_drop, Nat.add_sub_cancel' hstart, hk]

theorem hasCell_iff {p : Pattern} {cell : Cell} :
    p.HasCell cell ↔ ∃ c < p.columns, cell.col = Int64.ofNat c ∧ cell.row ∈ p.column c := by
  simp only [HasCell, entries, entriesOf, List.mem_flatMap, List.mem_range, List.mem_map]
  constructor
  · rintro ⟨_, ⟨c, hc, ⟨row, k⟩, hrow, rfl⟩, rfl⟩
    exact ⟨c, hc, rfl, List.fst_mem_of_mem_zipIdx hrow⟩
  · rintro ⟨c, hc, hcol, hrow⟩
    obtain ⟨k, hk⟩ := List.mem_iff_getElem?.1 hrow
    refine ⟨_, ⟨c, hc, (cell.row, p.offset c + k), ?_, rfl⟩, by rw [← hcol]⟩
    rw [List.mem_zipIdx_iff_le_and_getElem?_sub]
    simpa using hk

/-! ## From cells -/

theorem mem_dropRepeats {cell : Cell} (cells : List Cell) :
    cell ∈ dropRepeats cells ↔ cell ∈ cells := by
  fun_induction dropRepeats cells with
  | case1 a rest ih => simp [ih]
  | case2 a b rest hab ih => rw [List.mem_cons, ih, List.mem_cons (l := b :: rest)]
  | case3 cells => rfl

theorem dropRepeats_sublist (cells : List Cell) : (dropRepeats cells).Sublist cells := by
  fun_induction dropRepeats cells with
  | case1 a rest ih => exact ih.cons _
  | case2 a b rest hab ih => exact ih.cons_cons _
  | case3 cells => exact List.Sublist.refl _

/-- Where equal cells stand next to each other, only one of them is left. -/
theorem pairwise_dropRepeats {cells : List Cell} (h : cells.Pairwise fun a b => a.le b) :
    (dropRepeats cells).Pairwise fun a b => a.le b ∧ a ≠ b := by
  fun_induction dropRepeats cells with
  | case1 a rest ih => exact ih h.of_cons
  | case2 a b rest hab ih =>
    refine List.pairwise_cons.2 ⟨fun x hx => ?_, ih h.of_cons⟩
    rw [mem_dropRepeats] at hx
    have hle := (List.pairwise_cons.1 h).1
    refine ⟨hle x hx, ?_⟩
    rintro rfl
    rcases List.mem_cons.1 hx with rfl | hx'
    · exact hab rfl
    · exact hab (Cell.le_antisymm (hle b List.mem_cons_self)
        ((List.pairwise_cons.1 h.of_cons).1 a hx'))
  | case3 cells hshort =>
    match cells, hshort with
    | [], _ => exact .nil
    | [a], _ => exact List.pairwise_singleton _ _
    | a :: b :: rest, hshort => exact (hshort a b rest rfl).elim

/-- In a sorted list, the elements before a bound are the first ones. -/
theorem lt_countP_iff {cols : List Int64} (hs : cols.Pairwise (· ≤ ·)) {k : Nat} {a c : Int64}
    (hk : cols[k]? = some a) : k < cols.countP (· < c) ↔ a < c := by
  induction cols generalizing k with
  | nil => simp at hk
  | cons b cols ih =>
    obtain ⟨hb, hs⟩ := List.pairwise_cons.1 hs
    by_cases hbc : b < c
    · rw [List.countP_cons_of_pos (by simpa using hbc)]
      cases k with
      | zero =>
        obtain rfl : b = a := by simpa using hk
        simpa using hbc
      | succ k => rw [Nat.succ_lt_succ_iff, ih hs (by simpa using hk)]
    · have hge : ∀ x ∈ b :: cols, ¬x < c := by
        intro x hx hxc
        rcases List.mem_cons.1 hx with rfl | hx
        · exact hbc hxc
        · exact hbc (Int64.lt_of_le_of_lt (hb x hx) hxc)
      have hzero : (b :: cols).countP (· < c) = 0 :=
        List.countP_eq_zero.2 fun x hx => by simpa using hge x hx
      rw [hzero]
      simpa using hge a (List.mem_of_getElem? hk)

theorem mem_stored {cell : Cell} {cells : List Cell} : cell ∈ stored cells ↔ cell ∈ cells := by
  rw [stored, mem_dropRepeats, List.mem_mergeSort]

theorem length_stored_le (cells : List Cell) : (stored cells).length ≤ cells.length := by
  refine (dropRepeats_sublist _).length_le.trans ?_
  rw [List.length_mergeSort]

theorem pairwise_lt_stored (cells : List Cell) :
    (stored cells).Pairwise fun a b => a.le b ∧ a ≠ b :=
  pairwise_dropRepeats (List.pairwise_mergeSort Cell.le_trans Cell.le_total cells)

theorem pairwise_stored (cells : List Cell) :
    ((stored cells).map (·.col)).Pairwise (· ≤ ·) := by
  rw [List.pairwise_map]
  exact (pairwise_lt_stored cells).imp fun h => Cell.col_le_of_le h.1

/-- Cells that are in range are counted and added up to the starts of the columns. Of a negative
number of columns there is room for the offsets only if there are none. -/
theorem offsetsOf_stored {nrow ncol : Int64} {cells : List Cell}
    (hcells : ∀ cell ∈ cells, cell.inRange nrow ncol) (hfits : fits (ncol + 1)) :
    offsetsOf ncol ((stored cells).map (·.col)) =
      .ok (if ncol < 0 then [] else
        startsOf ncol.toNatClampNeg ((stored cells).map (·.col))) := by
  have hcols : ∀ c ∈ (stored cells).map (·.col), 0 ≤ c ∧ c < ncol := by
    intro c hc
    obtain ⟨cell, hcell, rfl⟩ := List.mem_map.1 hc
    exact (Cell.inRange_iff.1 (hcells cell (mem_stored.1 hcell))).2
  split_ifs with hneg
  · obtain rfl : ncol = -1 := by
      have hone : (1 : Int64).toInt = 1 := rfl
      have hzero : (0 : Int64).toInt = 0 := rfl
      have hle := Int64.le_toInt ncol
      simp only [fits, Bool.and_eq_true, decide_eq_true_eq, Int64.le_iff_toInt_le,
        Int64.lt_iff_toInt_lt, Int64.toInt_add, hone, hzero, Int.bmod_def] at hfits hneg
      rw [← Int64.toInt_inj, show (-1 : Int64).toInt = -1 from rfl]
      split_ifs at hfits <;> omega
    have hnil : (stored cells).map (·.col) = [] := by
      refine List.eq_nil_iff_forall_not_mem.2 fun c hc => ?_
      obtain ⟨h0, hlt⟩ := hcols c hc
      exact absurd (Int64.lt_of_le_of_lt h0 hlt) (by decide)
    rw [hnil]
    rfl
  · exact offsetsOf_eq (Int64.not_lt.1 hneg) hfits hcols

/-- Cells make a pattern if they are in range and there is room for the columns. -/
theorem ofCells_ok_iff {nrow ncol : Int64} {cells : List Cell} {p : Pattern} :
    ofCells nrow ncol cells = .ok p ↔
      (∀ cell ∈ cells, cell.inRange nrow ncol) ∧ fits (ncol + 1) ∧
        p = { nrow, ncol
              offsets := if ncol < 0 then [] else
                startsOf ncol.toNatClampNeg ((stored cells).map (·.col))
              rows := (stored cells).map (·.row) } := by
  unfold ofCells
  cases hfind : cells.find? (fun cell => !cell.inRange nrow ncol) with
  | some cell =>
    have hout := List.find?_some hfind
    refine iff_of_false (by rintro ⟨⟩) fun h => ?_
    simp [h.1 cell (List.mem_of_find?_eq_some hfind)] at hout
  | none =>
    have hrange : ∀ cell ∈ cells, cell.inRange nrow ncol := by
      simpa [List.find?_eq_none] using hfind
    by_cases hfits : fits (ncol + 1)
    · simp only [hfits, offsetsOf_stored hrange hfits]
      exact ⟨fun h => ⟨hrange, trivial, (Except.ok.inj h).symm⟩,
        fun h => congrArg Except.ok h.2.2.symm⟩
    · simp only [hfits]
      exact iff_of_false (by rintro ⟨⟩) fun h => Bool.false_ne_true h.2.1

theorem offset_ofCells {nrow ncol : Int64} {cells : List Cell} {p : Pattern}
    (h : ofCells nrow ncol cells = .ok p) (hnnz : p.nnz < 2 ^ 63) (hncol : 0 ≤ ncol) {c : Nat}
    (hc : c ≤ ncol.toNatClampNeg) :
    p.offset c = ((stored cells).map (·.col)).countP (· < Int64.ofNat c) := by
  obtain ⟨-, -, rfl⟩ := ofCells_ok_iff.1 h
  have hle := List.countP_le_length (p := (· < Int64.ofNat c)) (l := (stored cells).map (·.col))
  simp only [nnz, List.length_map] at hnnz hle
  rw [offset, if_neg (Int64.not_lt.2 hncol), getElem?_startsOf hc, Option.getD_some,
    Int64.toNatClampNeg_ofNat_of_lt (by omega)]

/-- A stored cell lies in the stretch of a column exactly if it is a cell of that column. -/
theorem col_stored_iff {nrow ncol : Int64} {cells : List Cell} {p : Pattern}
    (h : ofCells nrow ncol cells = .ok p) (hnnz : p.nnz < 2 ^ 63) (hncol : 0 ≤ ncol) {c : Nat}
    (hc : c < ncol.toNatClampNeg) {k : Nat} {cell : Cell} (hk : (stored cells)[k]? = some cell) :
    p.offset c ≤ k ∧ k < p.offset (c + 1) ↔ cell.col = Int64.ofNat c := by
  have hbound := Int64.toNatClampNeg_lt ncol
  -- A column lies between its own bound and the next one.
  have hcol : ∀ x : Int64, ¬x < Int64.ofNat c ∧ x < Int64.ofNat (c + 1) ↔ x = Int64.ofNat c := by
    intro x
    rw [Int64.lt_iff_toInt_lt, Int64.lt_iff_toInt_lt, ← Int64.toInt_inj,
      Int64.toInt_ofNat_of_lt (by omega), Int64.toInt_ofNat_of_lt (by omega)]
    omega
  have hk : ((stored cells).map (·.col))[k]? = some cell.col := by
    rw [List.getElem?_map, hk]
    rfl
  rw [offset_ofCells h hnnz hncol (Nat.le_of_lt hc), offset_ofCells h hnnz hncol hc,
    ← Nat.not_lt, lt_countP_iff (pairwise_stored cells) hk,
    lt_countP_iff (pairwise_stored cells) hk, hcol]

theorem mem_column_ofCells {nrow ncol : Int64} {cells : List Cell} {p : Pattern}
    (h : ofCells nrow ncol cells = .ok p) (hnnz : p.nnz < 2 ^ 63) (hncol : 0 ≤ ncol) {c : Nat}
    (hc : c < ncol.toNatClampNeg) (row : Int64) :
    row ∈ p.column c ↔ { row, col := Int64.ofNat c } ∈ cells := by
  have hrows : p.rows = (stored cells).map (·.row) := by
    obtain ⟨-, -, rfl⟩ := ofCells_ok_iff.1 h
    rfl
  rw [mem_column_iff, ← mem_stored, List.mem_iff_getElem?, hrows]
  constructor
  · rintro ⟨k, hstart, hstop, hk⟩
    obtain ⟨cell, hcell, rfl⟩ := Option.map_eq_some_iff.1 (List.getElem?_map .. ▸ hk)
    exact ⟨k, by rw [hcell, ← (col_stored_iff h hnnz hncol hc hcell).1 ⟨hstart, hstop⟩]⟩
  · rintro ⟨k, hk⟩
    obtain ⟨hstart, hstop⟩ := (col_stored_iff h hnnz hncol hc hk).2 rfl
    exact ⟨k, hstart, hstop, by rw [List.getElem?_map, hk]; rfl⟩

/-- A pattern that is built from cells has its nonzeros at these. -/
theorem hasCell_ofCells {nrow ncol : Int64} {cells : List Cell} {p : Pattern}
    (h : ofCells nrow ncol cells = .ok p) (hnnz : p.nnz < 2 ^ 63) (cell : Cell) :
    p.HasCell cell ↔ cell ∈ cells := by
  have hcolumns : p.columns = ncol.toNatClampNeg := by
    obtain ⟨-, -, rfl⟩ := ofCells_ok_iff.1 h
    rfl
  rw [hasCell_iff, hcolumns]
  constructor
  · rintro ⟨c, hc, hcol, hrow⟩
    have hncol : 0 < ncol := (Int64.toNatClampNeg_pos_iff ncol).1 (by omega)
    have := (mem_column_ofCells h hnnz (Int64.le_of_lt hncol) hc cell.row).1 hrow
    rwa [← hcol] at this
  · intro hcell
    obtain ⟨-, hzero, hlt⟩ := Cell.inRange_iff.1 ((ofCells_ok_iff.1 h).1 cell hcell)
    have hcol := Int64.ofNat_toNatClampNeg cell.col hzero
    have hc : cell.col.toNatClampNeg < ncol.toNatClampNeg := by
      have := Int64.cast_toNatClampNeg cell.col hzero
      have := Int64.cast_toNatClampNeg ncol (Int64.le_of_lt (Int64.lt_of_le_of_lt hzero hlt))
      rw [Int64.lt_iff_toInt_lt] at hlt
      omega
    refine ⟨cell.col.toNatClampNeg, hc, hcol.symm, ?_⟩
    rw [mem_column_ofCells h hnnz (Int64.le_of_lt (Int64.lt_of_le_of_lt hzero hlt)) hc, hcol]
    exact hcell

end Pattern

end Tangent
