import Mathlib
import Tangent.Pattern.Transpose
import Tangent.Proofs.CellSets

/-!
# Transposing twice

The columns of a transposed pattern are filled side by side: after any number of nonzeros, each of
them is filled up to its next free place with what should stand there in the end (`FilledUp`). In
the end, this is the list of nonzeros one row after the other (`entriesByRow`), where the nonzeros
of one row keep their order. So the transposed cells are sorted as cells are, and the result is the
pattern that is built from them (`WellFormed.transpose_eq`).

What a transposition should be is said without any order (`Transposes`): the nonzeros of the result
correspond to those of the given pattern, and lie at the transposed places. As a pattern is
determined by its cells, and a nonzero by its cell, this is enough to see that a second
transposition undoes the first (`Transposes.eq`, `Transposes.getElem?_iff`).
-/

namespace Tangent

/-- The place on the other side of the diagonal. -/
def Cell.flip (cell : Cell) : Cell where
  row := cell.col
  col := cell.row

theorem Cell.inRange_flip {nrow ncol : Int64} {cell : Cell} :
    cell.flip.inRange ncol nrow ↔ cell.inRange nrow ncol := by
  rw [inRange_iff, inRange_iff, and_comm]
  rfl

namespace Pattern

variable {p t u : Pattern} {m m' : List Nat}

/-! ## Sorted by rows -/

/-- The nonzeros of one row, in the order in which they are stored. -/
def entriesOfRow (p : Pattern) (r : Nat) : List Entry :=
  p.entries.filter (·.cell.row = Int64.ofNat r)

/-- The nonzeros, one row after the other. -/
def entriesByRow (p : Pattern) : List Entry :=
  (List.range p.nrow.toNatClampNeg).flatMap p.entriesOfRow

theorem mem_entriesOfRow {e : Entry} {r : Nat} :
    e ∈ p.entriesOfRow r ↔ e ∈ p.entries ∧ e.cell.row = Int64.ofNat r := by
  simp [entriesOfRow]

/-- Starts of columns count nonzeros, in whatever order they come. -/
theorem startsOf_perm (n : Nat) {cols cols' : List Int64} (h : cols.Perm cols') :
    startsOf n cols = startsOf n cols' := by
  unfold startsOf
  refine List.map_congr_left fun c _ => ?_
  rw [h.countP_eq]

namespace WellFormed

theorem map_row_entries (h : p.WellFormed) : p.entries.map (·.cell.row) = p.rows := by
  rw [← h.map_row_cells, cells, List.map_map]
  rfl

theorem exists_row (h : p.WellFormed) {e : Entry} (he : e ∈ p.entries) :
    ∃ r < p.nrow.toNatClampNeg, e.cell.row = Int64.ofNat r := by
  obtain ⟨h0, hlt⟩ := (Cell.inRange_iff.1 (h.inRange_cells (List.mem_map_of_mem he))).1
  exact exists_ofNat h0 hlt

theorem mem_entriesByRow (h : p.WellFormed) {e : Entry} :
    e ∈ p.entriesByRow ↔ e ∈ p.entries := by
  simp only [entriesByRow, List.mem_flatMap, List.mem_range, mem_entriesOfRow]
  constructor
  · rintro ⟨r, -, he, -⟩
    exact he
  · intro he
    obtain ⟨r, hr, hrow⟩ := h.exists_row he
    exact ⟨r, hr, he, hrow⟩

/-- Sorted by rows, the transposed cells are sorted as cells. -/
theorem pairwise_flip_entriesByRow (h : p.WellFormed) :
    (p.entriesByRow.map (·.cell.flip)).Pairwise fun a b => a.le b ∧ a ≠ b := by
  have hbound := Int64.toNatClampNeg_lt p.nrow
  have hcells : p.entries.Pairwise fun a b => a.cell.le b.cell ∧ a.cell ≠ b.cell :=
    List.pairwise_map.1 h.pairwise_cells
  rw [List.pairwise_map, entriesByRow, List.pairwise_flatMap]
  constructor
  · intro r _
    refine (hcells.sublist List.filter_sublist).imp_of_mem fun {a b} ha hb hab => ?_
    have hrow := (mem_entriesOfRow.1 ha).2.trans (mem_entriesOfRow.1 hb).2.symm
    refine ⟨?_, fun he => hab.2 (congrArg Cell.flip he)⟩
    simp [Cell.le, Cell.flip, hrow, Cell.col_le_of_le hab.1]
  · refine List.pairwise_lt_range.imp_of_mem fun {r s} hr hs hrs a ha b hb => ?_
    have hr := List.mem_range.1 hr
    have hs := List.mem_range.1 hs
    have hlt : a.cell.row < b.cell.row := by
      rw [(mem_entriesOfRow.1 ha).2, (mem_entriesOfRow.1 hb).2,
        Int64.ofNat_lt_iff_lt (by omega) (by omega)]
      exact hrs
    refine ⟨by simp [Cell.le, Cell.flip, hlt], fun he => ?_⟩
    have hrow : a.cell.row = b.cell.row := congrArg Cell.col he
    exact Int64.lt_irrefl (hrow ▸ hlt)

theorem perm_entriesByRow (h : p.WellFormed) : p.entriesByRow.Perm p.entries := by
  have hnodup : p.entriesByRow.Nodup :=
    (List.pairwise_map.1 h.pairwise_flip_entriesByRow).imp fun hab he => hab.2 (by rw [he])
  have hnodup' : p.entries.Nodup :=
    (List.pairwise_map.1 h.pairwise_cells).imp fun hab he => hab.2 (by rw [he])
  exact (List.perm_ext_iff_of_nodup hnodup hnodup').2 fun e => h.mem_entriesByRow

theorem length_entriesByRow (h : p.WellFormed) : p.entriesByRow.length = p.nnz := by
  rw [h.perm_entriesByRow.length_eq, h.length_entries]

theorem length_entriesOfRow (h : p.WellFormed) (r : Nat) :
    (p.entriesOfRow r).length = p.rows.count (Int64.ofNat r) := by
  rw [entriesOfRow, ← List.countP_eq_length_filter, ← h.map_row_entries, List.count,
    List.countP_map]
  rfl

/-- A row starts after the nonzeros of earlier rows. -/
theorem length_rows_before (h : p.WellFormed) {r : Nat} (hr : r ≤ p.nrow.toNatClampNeg) :
    ((List.range r).flatMap p.entriesOfRow).length = p.rows.countP (· < Int64.ofNat r) := by
  have hbound := Int64.toNatClampNeg_lt p.nrow
  induction r with
  | zero =>
    exact (List.countP_eq_zero.2 fun c hc => by simpa using (h.inRange hc).1).symm
  | succ r ih =>
    rw [List.range_succ, List.flatMap_append, List.length_append, ih (by omega),
      countP_lt_succ (by omega), List.flatMap_singleton, h.length_entriesOfRow]

theorem getElem?_entriesByRow (h : p.WellFormed) {r k : Nat} (hr : r < p.nrow.toNatClampNeg)
    (hk : k < (p.entriesOfRow r).length) :
    p.entriesByRow[p.rows.countP (· < Int64.ofNat r) + k]? = (p.entriesOfRow r)[k]? := by
  obtain ⟨d, hd⟩ := Nat.exists_eq_add_of_lt hr
  have hsplit : p.entriesByRow = (List.range r).flatMap p.entriesOfRow ++ (p.entriesOfRow r ++
      ((List.range d).map (r + 1 + ·)).flatMap p.entriesOfRow) := by
    rw [entriesByRow, hd, show r + d + 1 = (r + 1) + d by omega, List.range_add, List.range_succ]
    simp
  rw [hsplit, ← h.length_rows_before hr.le, List.getElem?_append_right (Nat.le_add_right _ _),
    Nat.add_sub_cancel_left, List.getElem?_append_left hk]

end WellFormed

/-! ## Filling the columns -/

/-- After some of the nonzeros, every column of the result is filled up to its next free place, with
what should stand there in the end. -/
structure FilledUp (p : Pattern) (done : List Entry) (s : Transposing) : Prop where
  size_rows : s.rows.size = p.nnz
  size_mapping : s.mapping.size = p.nnz
  size_next : s.next.size = p.nrow.toNatClampNeg
  next : ∀ r < p.nrow.toNatClampNeg, s.next[r]? = some (Int64.ofNat
    (p.rows.countP (· < Int64.ofNat r) + done.countP (·.cell.row = Int64.ofNat r)))
  filled : ∀ r < p.nrow.toNatClampNeg, ∀ k < done.countP (·.cell.row = Int64.ofNat r),
    ∀ i, i = p.rows.countP (· < Int64.ofNat r) + k →
      s.rows[i]? = (p.entriesByRow[i]?).map (·.cell.col) ∧
        s.mapping[i]? = (p.entriesByRow[i]?).map (·.index)

/-- The next nonzero of a row belongs at the next free place. -/
theorem WellFormed.getElem?_next (h : p.WellFormed) {done rest : List Entry} {e : Entry}
    (hsplit : p.entries = done ++ e :: rest) {r : Nat} (hr : r < p.nrow.toNatClampNeg)
    (hrow : e.cell.row = Int64.ofNat r) :
    p.entriesByRow[p.rows.countP (· < Int64.ofNat r) +
      done.countP (·.cell.row = Int64.ofNat r)]? = some e := by
  have hentries : p.entriesOfRow r = done.filter (·.cell.row = Int64.ofNat r) ++
      e :: rest.filter (·.cell.row = Int64.ofNat r) := by
    rw [entriesOfRow, hsplit, List.filter_append, List.filter_cons_of_pos (by simpa using hrow)]
  have hlt : done.countP (·.cell.row = Int64.ofNat r) < (p.entriesOfRow r).length := by
    rw [hentries, List.length_append, ← List.countP_eq_length_filter]
    simp
  rw [h.getElem?_entriesByRow hr hlt, hentries, List.countP_eq_length_filter]
  simp

theorem FilledUp.put (h : p.WellFormed) {done rest : List Entry} {e : Entry} {s : Transposing}
    (hs : FilledUp p done s) (hsplit : p.entries = done ++ e :: rest) :
    ∃ s', s.put e = .ok s' ∧ FilledUp p (done ++ [e]) s' := by
  have hbound := Int64.toNatClampNeg_lt p.nrow
  have hnnz := h.nnz_lt
  obtain ⟨r, hr, hrow⟩ := h.exists_row (e := e) (by simp [hsplit])
  obtain ⟨place, hplace⟩ : ∃ place, place = p.rows.countP (· < Int64.ofNat r) +
    done.countP (·.cell.row = Int64.ofNat r) := ⟨_, rfl⟩
  have hnext := hs.next r hr
  have hput := h.getElem?_next hsplit hr hrow
  rw [← hplace] at hnext hput
  have hlt : place < p.nnz := by
    rw [← h.length_entriesByRow]
    exact (List.getElem?_eq_some_iff.1 hput).1
  have hcount : ∀ r' < p.nrow.toNatClampNeg, (done ++ [e]).countP (·.cell.row = Int64.ofNat r') =
      done.countP (·.cell.row = Int64.ofNat r') + if r' = r then 1 else 0 := by
    intro r' hr'
    have hiff : e.cell.row = Int64.ofNat r' ↔ r' = r := by
      rw [hrow, ← Int64.toInt_inj, Int64.toInt_ofNat_of_lt (by omega),
        Int64.toInt_ofNat_of_lt (by omega)]
      omega
    rw [List.countP_append, List.countP_singleton]
    simp [hiff]
  refine ⟨⟨s.next.setIfInBounds r (Int64.ofNat place + 1),
    s.rows.setIfInBounds place e.cell.col, s.mapping.setIfInBounds place e.index⟩, ?_, ?_⟩
  · rw [Transposing.put, hrow, Buffer.read_ofNat hnext (by omega)]
    simp only [bind, Except.bind, Buffer.write_ofNat (hs.size_next ▸ hr) (by omega),
      Buffer.write_ofNat (hs.size_rows ▸ hlt) (by omega),
      Buffer.write_ofNat (hs.size_mapping ▸ hlt) (by omega)]
    rfl
  · refine ⟨?_, ?_, ?_, fun r' hr' => ?_, fun r' hr' k hk i hi => ?_⟩
    · rw [Array.size_setIfInBounds, hs.size_rows]
    · rw [Array.size_setIfInBounds, hs.size_mapping]
    · rw [Array.size_setIfInBounds, hs.size_next]
    · rw [hcount r' hr']
      by_cases hrr : r' = r
      · rw [hrr, if_pos rfl, Array.getElem?_setIfInBounds_self_of_lt (hs.size_next ▸ hr),
          ← Nat.add_assoc, ← hplace, Int64.ofNat_add]
        rfl
      · rw [Array.getElem?_setIfInBounds_ne (Ne.symm hrr), if_neg hrr, hs.next r' hr', Nat.add_zero]
    · by_cases hip : i = place
      · rw [hip, hput, Array.getElem?_setIfInBounds_self_of_lt (hs.size_rows ▸ hlt),
          Array.getElem?_setIfInBounds_self_of_lt (hs.size_mapping ▸ hlt)]
        exact ⟨rfl, rfl⟩
      · rw [Array.getElem?_setIfInBounds_ne (Ne.symm hip),
          Array.getElem?_setIfInBounds_ne (Ne.symm hip)]
        -- Only the place that was written to is new.
        refine hs.filled r' hr' k ?_ i hi
        rw [hcount r' hr'] at hk
        split_ifs at hk with hrr
        · rw [hrr] at hi hk ⊢
          omega
        · exact hk

/-- Every place belongs to a row. -/
theorem WellFormed.exists_row_of_lt (h : p.WellFormed) {i : Nat} (hi : i < p.nnz) :
    ∃ r < p.nrow.toNatClampNeg, ∃ k < p.rows.count (Int64.ofNat r),
      i = p.rows.countP (· < Int64.ofNat r) + k := by
  have hbound := Int64.toNatClampNeg_lt p.nrow
  have hall : p.rows.countP (· < Int64.ofNat p.nrow.toNatClampNeg) = p.nnz := by
    rw [Int64.ofNat_toNatClampNeg _ h.nrow_nonneg]
    exact List.countP_eq_length.2 fun r hr => decide_eq_true (h.inRange hr).2
  have hcross : ∀ n ≤ p.nrow.toNatClampNeg, i < p.rows.countP (· < Int64.ofNat n) →
      ∃ r < n, ∃ k < p.rows.count (Int64.ofNat r), i = p.rows.countP (· < Int64.ofNat r) + k := by
    intro n
    induction n with
    | zero =>
      intro _ hlt
      have hnone : p.rows.countP (· < Int64.ofNat 0) = 0 :=
        List.countP_eq_zero.2 fun c hc => by simpa using (h.inRange hc).1
      omega
    | succ n ih =>
      intro hn hlt
      rcases Nat.lt_or_ge i (p.rows.countP (· < Int64.ofNat n)) with hlt' | hge
      · obtain ⟨r, hr, hk⟩ := ih (by omega) hlt'
        exact ⟨r, by omega, hk⟩
      · rw [countP_lt_succ (by omega)] at hlt
        exact ⟨n, Nat.lt_succ_self n, i - p.rows.countP (· < Int64.ofNat n), by omega, by omega⟩
  exact hcross _ (Nat.le_refl _) (hall ▸ hi)

theorem FilledUp.toList_eq (h : p.WellFormed) {s : Transposing} (hs : FilledUp p p.entries s) :
    s.rows.toList = p.entriesByRow.map (·.cell.col) ∧
      s.mapping.toList = p.entriesByRow.map (·.index) := by
  have hget : ∀ i : Nat, s.rows[i]? = (p.entriesByRow[i]?).map (·.cell.col) ∧
      s.mapping[i]? = (p.entriesByRow[i]?).map (·.index) := by
    intro i
    rcases Nat.lt_or_ge i p.nnz with hi | hi
    · obtain ⟨r, hr, k, hk, hik⟩ := h.exists_row_of_lt hi
      refine hs.filled r hr k ?_ i hik
      rw [← h.length_entriesOfRow, entriesOfRow, ← List.countP_eq_length_filter] at hk
      exact hk
    · rw [Array.getElem?_eq_none (hs.size_rows ▸ hi), Array.getElem?_eq_none (hs.size_mapping ▸ hi),
        List.getElem?_eq_none (h.length_entriesByRow ▸ hi)]
      exact ⟨rfl, rfl⟩
  constructor
  · refine List.ext_getElem? fun i => ?_
    rw [Array.getElem?_toList, (hget i).1, List.getElem?_map]
  · refine List.ext_getElem? fun i => ?_
    rw [Array.getElem?_toList, (hget i).2, List.getElem?_map]

theorem filledUp_start (p : Pattern) :
    FilledUp p [] (.start p (startsOf p.nrow.toNatClampNeg p.rows)) := by
  refine ⟨Array.size_replicate, Array.size_replicate, ?_, fun r hr => ?_, fun r _ k hk => ?_⟩
  · simp [Transposing.start, length_startsOf]
  · rw [Transposing.start, List.getElem?_toArray, List.getElem?_take_of_lt hr,
      getElem?_startsOf hr.le]
    rfl
  · cases hk

namespace WellFormed

/-- All nonzeros are put at their places. -/
theorem foldlM_put (h : p.WellFormed) :
    ∃ s, p.entries.foldlM Transposing.put
        (.start p (startsOf p.nrow.toNatClampNeg p.rows)) = .ok s ∧
      s.rows.toList = p.entriesByRow.map (·.cell.col) ∧
      s.mapping.toList = p.entriesByRow.map (·.index) := by
  obtain ⟨s, hs, hfilled⟩ := Ends.exists_ok (Ends.foldlM p.filledUp_start
    fun done e rest s hsplit hs => .of_exists (hs.put h hsplit))
  exact ⟨s, hs, hfilled.toList_eq h⟩

/-- The transposed pattern is built from the transposed cells. -/
theorem transpose_eq (h : p.WellFormed) (hroom : p.nrow.toInt < capacity.toInt) :
    ∃ t, p.transpose = .ok (t, p.entriesByRow.map (·.index)) ∧
      ofCells p.ncol p.nrow (p.entriesByRow.map (·.cell.flip)) = .ok t := by
  have hfits := (fits_add_one_iff h.nrow_nonneg).2 hroom
  obtain ⟨s, hs, hrows, hmapping⟩ := h.foldlM_put
  refine ⟨{ nrow := p.ncol, ncol := p.nrow, offsets := startsOf p.nrow.toNatClampNeg p.rows
            rows := p.entriesByRow.map (·.cell.col) }, ?_, ?_⟩
  · unfold transpose
    rw [if_pos (by simp [h.nrow_nonneg, hfits]),
      offsetsOf_eq h.nrow_nonneg hfits fun r => h.inRange, h.walk_eq]
    simp only [bind, Except.bind, hs, ← hrows, ← hmapping]
    rfl
  · refine ofCells_ok_iff.2 ⟨fun cell hcell => ?_, hfits, ?_⟩
    · obtain ⟨e, he, rfl⟩ := List.mem_map.1 hcell
      exact Cell.inRange_flip.2 (h.inRange_cells (List.mem_map_of_mem (h.mem_entriesByRow.1 he)))
    · have hperm : p.rows.Perm (p.entriesByRow.map (·.cell.row)) := by
        rw [← h.map_row_entries]
        exact (h.perm_entriesByRow.map _).symm
      rw [stored_of_pairwise h.pairwise_flip_entriesByRow, if_neg (Int64.not_lt.2 h.nrow_nonneg),
        List.map_map, List.map_map, startsOf_perm _ hperm]
      rfl

theorem transpose_fault_iff (h : p.WellFormed) :
    p.transpose = .fault .outOfRange ↔ capacity.toInt ≤ p.nrow.toInt := by
  rw [← Int.not_lt]
  constructor
  · intro hfault hroom
    obtain ⟨t, ht, -⟩ := h.transpose_eq hroom
    rw [hfault] at ht
    cases ht
  · intro hroom
    rw [← fits_add_one_iff h.nrow_nonneg] at hroom
    unfold transpose
    rw [if_neg (by simp [hroom])]
    rfl

end WellFormed

/-! ## Transpositions -/

/-- The pattern `t` is `p` transposed, and nonzero `k` of `t` is nonzero `m[k]` of `p`. -/
structure Transposes (p t : Pattern) (m : List Nat) : Prop where
  wellFormed : t.WellFormed
  nrow : t.nrow = p.ncol
  ncol : t.ncol = p.nrow
  /-- Every nonzero of `p` occurs once. -/
  perm : m.Perm (List.range p.nnz)
  entry_iff : ∀ k r c, { index := k, cell := { row := r, col := c } } ∈ t.entries ↔
    ∃ j, m[k]? = some j ∧ { index := j, cell := { row := c, col := r } } ∈ p.entries

theorem WellFormed.transposes_of_ofCells (h : p.WellFormed)
    (ht : ofCells p.ncol p.nrow (p.entriesByRow.map (·.cell.flip)) = .ok t) :
    p.Transposes t (p.entriesByRow.map (·.index)) := by
  have hlen : (p.entriesByRow.map (·.cell.flip)).length < 2 ^ 63 := by
    rw [List.length_map, h.perm_entriesByRow.length_eq, h.length_entries]
    exact h.nnz_lt
  have hwf := wellFormed_ofCells ht h.ncol_nonneg h.nrow_nonneg hlen
  have hcells : t.cells = p.entriesByRow.map (·.cell.flip) := by
    rw [cells_ofCells ht h.ncol_nonneg h.nrow_nonneg hlen,
      stored_of_pairwise h.pairwise_flip_entriesByRow]
  obtain ⟨hnrow, hncol⟩ := size_of_ofCells ht
  refine ⟨hwf, hnrow, hncol, ?_, fun k r c => ?_⟩
  · rw [← h.map_index_entries]
    exact h.perm_entriesByRow.map _
  · rw [← hwf.getElem?_cells, hcells, List.getElem?_map, Option.map_eq_some_iff]
    constructor
    · rintro ⟨e, he, hflip⟩
      obtain ⟨rfl, rfl⟩ := Cell.mk.inj hflip
      exact ⟨e.index, by rw [List.getElem?_map, he, Option.map_some],
        h.mem_entriesByRow.1 (List.mem_of_getElem? he)⟩
    · rintro ⟨j, hj, hmem⟩
      obtain ⟨e, he, rfl⟩ := Option.map_eq_some_iff.1 (List.getElem?_map .. ▸ hj)
      have hcell := h.getElem?_cells.2 (h.mem_entriesByRow.1 (List.mem_of_getElem? he))
      rw [h.getElem?_cells.2 hmem, Option.some.injEq] at hcell
      exact ⟨e, he, by rw [← hcell]; rfl⟩

theorem WellFormed.exists_transposes (h : p.WellFormed) (hroom : p.nrow.toInt < capacity.toInt) :
    ∃ t m, p.transpose = .ok (t, m) ∧ p.Transposes t m := by
  obtain ⟨t, ht, hcells⟩ := h.transpose_eq hroom
  exact ⟨t, _, ht, h.transposes_of_ofCells hcells⟩

namespace Transposes

theorem hasCell_iff (h : p.WellFormed) (ht : p.Transposes t m) {r c : Int64} :
    t.HasCell { row := r, col := c } ↔ p.HasCell { row := c, col := r } := by
  constructor
  · rintro ⟨⟨k, -⟩, hmem, rfl⟩
    obtain ⟨j, -, hj⟩ := (ht.entry_iff k r c).1 hmem
    exact ⟨_, hj, rfl⟩
  · rintro ⟨⟨j, -⟩, hmem, rfl⟩
    -- The number of a nonzero is a member of the permutation.
    have hj : j ∈ m := by
      rw [ht.perm.mem_iff, ← h.map_index_entries]
      exact List.mem_map_of_mem hmem
    obtain ⟨k, hk⟩ := List.mem_iff_getElem?.1 hj
    exact ⟨_, (ht.entry_iff k r c).2 ⟨j, hk, hmem⟩, rfl⟩

/-- A second transposition gives the pattern back. -/
theorem eq (h : p.WellFormed) (ht : p.Transposes t m) (hu : t.Transposes u m') : u = p := by
  refine hu.wellFormed.eq_of_hasCell_iff h (hu.nrow.trans ht.ncol) (hu.ncol.trans ht.nrow) ?_
  rintro ⟨r, c⟩
  rw [hu.hasCell_iff ht.wellFormed, ht.hasCell_iff h]

theorem getElem?_of_getElem? (h : p.WellFormed) (ht : p.Transposes t m)
    (hp : t.Transposes p m') {k j : Nat} (hk : m[k]? = some j) : m'[j]? = some k := by
  have hj : j ∈ p.entries.map (·.index) := by
    rw [h.map_index_entries, ← ht.perm.mem_iff]
    exact List.mem_of_getElem? hk
  obtain ⟨⟨_, c, r⟩, hmem, rfl⟩ := List.mem_map.1 hj
  obtain ⟨k', hk', hmem'⟩ := (hp.entry_iff _ c r).1 hmem
  rw [hk', ht.wellFormed.index_eq hmem' ((ht.entry_iff k r c).2 ⟨_, hk, hmem⟩)]

/-- The mapping of the second transposition is the inverse of that of the first. -/
theorem getElem?_iff (h : p.WellFormed) (ht : p.Transposes t m) (hp : t.Transposes p m')
    {k j : Nat} : m[k]? = some j ↔ m'[j]? = some k :=
  ⟨ht.getElem?_of_getElem? h hp, hp.getElem?_of_getElem? ht.wellFormed ht⟩

end Transposes

/-- A well-formed pattern can be transposed unless there is no room for the offsets of the result.
The result is the pattern transposed, with the number that each nonzero had before; and if the
pattern itself was stored, transposing the result gives it back, with the inverse mapping. -/
theorem transpose_involutive (h : p.WellFormed) :
    (p.transpose = .fault .outOfRange ↔ capacity.toInt ≤ p.nrow.toInt) ∧
    (p.nrow.toInt < capacity.toInt → ∃ t m, p.transpose = .ok (t, m) ∧ p.Transposes t m ∧
      (p.Stored → ∃ m', t.transpose = .ok (p, m') ∧ t.Transposes p m' ∧
        ∀ k j : Nat, m[k]? = some j ↔ m'[j]? = some k)) := by
  refine ⟨h.transpose_fault_iff, fun hroom => ?_⟩
  obtain ⟨t, m, hrun, ht⟩ := h.exists_transposes hroom
  refine ⟨t, m, hrun, ht, fun hs => ?_⟩
  obtain ⟨u, m', hrun', hu⟩ := ht.wellFormed.exists_transposes (ht.nrow ▸ hs.ncol_lt h)
  obtain rfl := ht.eq h hu
  exact ⟨m', hrun', hu, fun k j => ht.getElem?_iff h hu⟩

/-- A pattern with an empty column and an empty row. -/
def hook : Pattern where
  nrow := 3
  ncol := 4
  offsets := [0, 2, 2, 3, 4]
  rows := [0, 2, 0, 0]

theorem transpose_involutive_hook :
    hook.WellFormed ∧ hook.Stored ∧ ∃ t m, hook.transpose = .ok (t, m) ∧ hook.Transposes t m ∧
      ∃ m', t.transpose = .ok (hook, m') ∧ ∀ k j : Nat, m[k]? = some j ↔ m'[j]? = some k := by
  have hwf : hook.WellFormed := by decide
  have hs : hook.Stored := by decide
  obtain ⟨t, m, hrun, ht, hback⟩ := (transpose_involutive hwf).2 (by decide)
  obtain ⟨m', hrun', -, hinverse⟩ := hback hs
  exact ⟨hwf, hs, t, m, hrun, ht, m', hrun', hinverse⟩

/-- A well-formed pattern that is not transposed: the number of columns of the result has no
successor among the machine integers. -/
theorem transpose_without_room :
    (⟨9223372036854775807, 0, [0], []⟩ : Pattern).WellFormed ∧
      ¬∃ t m, (⟨9223372036854775807, 0, [0], []⟩ : Pattern).transpose = .ok (t, m) := by
  have hwf : (⟨9223372036854775807, 0, [0], []⟩ : Pattern).WellFormed := by decide
  refine ⟨hwf, ?_⟩
  rintro ⟨t, m, h⟩
  rw [hwf.transpose_fault_iff.2 (by decide)] at h
  cases h

end Pattern

end Tangent
