import Mathlib
import Tangent.Proofs.CellSets
import Tangent.Proofs.LayOut

/-!
# Making a matrix dense

A matrix that is made dense has the same entries as before, and a constant zero at every other place
(`SparseMatrix.Densified`). The nonzeros are put into a buffer of zeros one after the other. No two
of them have one place, so what was put there stays (`SparseMatrix.Placed.placeNode`). The places of
the buffer are numbered column by column, as they are in the pattern with every place
(`WellFormed.find?_of_nnz_eq`). All that can go wrong is that there is no room for so many nodes
(`SparseMatrix.Sound.densify_fault`).
-/

namespace Tangent

variable {K : Type}

/-! ## Places -/

/-- Places are numbered from zero on. -/
theorem Cell.exists_of_inRange {nrow ncol r c : Int64}
    (h : Cell.inRange nrow ncol { row := r, col := c }) :
    ∃ row < nrow.toNatClampNeg, ∃ col < ncol.toNatClampNeg,
      r = Int64.ofNat row ∧ c = Int64.ofNat col := by
  obtain ⟨⟨hr, hrlt⟩, hc, hclt⟩ := Cell.inRange_iff.1 h
  obtain ⟨row, hrow, rfl⟩ := exists_ofNat hr hrlt
  obtain ⟨col, hcol, rfl⟩ := exists_ofNat hc hclt
  exact ⟨row, hrow, col, hcol, rfl, rfl⟩

namespace Pattern

variable {p : Pattern} {r c : Int64} {k : Nat} {cell cell' : Cell}

/-- The number of a cell among all cells, column by column. -/
def place (p : Pattern) (cell : Cell) : Nat :=
  cell.col.toNatClampNeg * p.nrow.toNatClampNeg + cell.row.toNatClampNeg

theorem place_ofNat {row col : Nat} (hrow : row < p.nrow.toNatClampNeg) (hcol : col < p.columns) :
    p.place { row := Int64.ofNat row, col := Int64.ofNat col } =
      col * p.nrow.toNatClampNeg + row := by
  have hnrow := Int64.toNatClampNeg_lt p.nrow
  have hncol := Int64.toNatClampNeg_lt p.ncol
  rw [columns] at hcol
  rw [place, Int64.toNatClampNeg_ofNat_of_lt (by omega), Int64.toNatClampNeg_ofNat_of_lt (by omega)]

theorem place_lt (h : cell.inRange p.nrow p.ncol) :
    p.place cell < p.columns * p.nrow.toNatClampNeg := by
  obtain ⟨row, hrow, col, hcol, hr, hc⟩ := Cell.exists_of_inRange h
  obtain rfl : cell = { row := Int64.ofNat row, col := Int64.ofNat col } := by rw [← hr, ← hc]
  rw [place_ofNat hrow hcol]
  calc
    col * p.nrow.toNatClampNeg + row
      < col * p.nrow.toNatClampNeg + p.nrow.toNatClampNeg := Nat.add_lt_add_left hrow _
    _ = (col + 1) * p.nrow.toNatClampNeg := (Nat.succ_mul _ _).symm
    _ ≤ p.columns * p.nrow.toNatClampNeg := Nat.mul_le_mul_right _ hcol

/-- Cells with one number are one cell. -/
theorem place_inj (h : cell.inRange p.nrow p.ncol) (h' : cell'.inRange p.nrow p.ncol)
    (hplace : p.place cell = p.place cell') : cell = cell' := by
  obtain ⟨row, hrow, col, hcol, hr, hc⟩ := Cell.exists_of_inRange h
  obtain rfl : cell = { row := Int64.ofNat row, col := Int64.ofNat col } := by rw [← hr, ← hc]
  obtain ⟨row', hrow', col', hcol', hr', hc'⟩ := Cell.exists_of_inRange h'
  obtain rfl : cell' = { row := Int64.ofNat row', col := Int64.ofNat col' } := by rw [← hr', ← hc']
  rw [place_ofNat hrow hcol, place_ofNat hrow' hcol', Nat.mul_comm, Nat.mul_comm col'] at hplace
  have hcols : col = col' := by
    have hdiv := congrArg (· / p.nrow.toNatClampNeg) hplace
    simpa only [Nat.mul_add_div (Nat.zero_lt_of_lt hrow), Nat.div_eq_of_lt hrow,
      Nat.div_eq_of_lt hrow', Nat.add_zero] using hdiv
  subst hcols
  rw [Nat.add_left_cancel hplace]

/-- The number of a cell, in machine integers. -/
theorem ofNat_place (hnrow : 0 ≤ p.nrow) (h : cell.inRange p.nrow p.ncol) :
    cell.col * p.nrow + cell.row = Int64.ofNat (p.place cell) := by
  obtain ⟨⟨hr, -⟩, hc, -⟩ := Cell.inRange_iff.1 h
  rw [place, Int64.ofNat_add, Int64.ofNat_mul, Int64.ofNat_toNatClampNeg _ hnrow,
    Int64.ofNat_toNatClampNeg _ hr, Int64.ofNat_toNatClampNeg _ hc]

namespace WellFormed

theorem lt_nnz_of_find? (h : p.WellFormed) (hk : p.find? r c = some k) : k < p.nnz := by
  obtain ⟨e, he, rfl, -⟩ := h.find?_eq_some_iff.1 hk
  have hmem := List.mem_map_of_mem (f := (·.index)) he
  rw [h.map_index_entries] at hmem
  exact List.mem_range.1 hmem

/-- In a pattern with every place, places are numbered column by column. -/
theorem find?_of_nnz_eq (h : p.WellFormed) (hnnz : p.nnz = p.columns * p.nrow.toNatClampNeg)
    (hrc : Cell.inRange p.nrow p.ncol { row := r, col := c }) :
    p.find? r c = some (p.place { row := r, col := c }) := by
  obtain ⟨row, hrow, col, hcol, rfl, rfl⟩ := Cell.exists_of_inRange hrc
  rw [place_ofNat hrow hcol, h.find?_of_mem hcol, h.offset_eq_mul hnnz hcol.le,
    h.column_of_nnz_eq hnnz hcol, Nat.add_sub_cancel_left, List.getElem?_map,
    List.getElem?_range hrow]
  exact ⟨Nat.le_add_right _ _, rfl⟩

end WellFormed

variable {q : Pattern}

/-- There is room for a pattern of this size with every place. -/
structure HasRoom (p : Pattern) : Prop where
  offsets : p.ncol.toInt < capacity.toInt
  rows : p.nrow.toInt * p.ncol.toInt ≤ capacity.toInt

theorem WellFormed.fits_iff (h : p.WellFormed) (hfit : p.EntriesFit) :
    (fits (p.ncol + 1) && fits (p.nrow * p.ncol)) ↔ p.HasRoom := by
  rw [Bool.and_eq_true, fits_add_one_iff h.ncol_nonneg,
    fits_mul_iff h.nrow_nonneg h.ncol_nonneg hfit]
  exact ⟨fun hroom => ⟨hroom.1, hroom.2⟩, fun hroom => ⟨hroom.offsets, hroom.rows⟩⟩

theorem sameSize_iff : p.sameSize q ↔ p.nrow = q.nrow ∧ p.ncol = q.ncol := by
  simp [sameSize]

theorem isDenseScalar_iff : p.isDenseScalar ↔ p.nrow = 1 ∧ p.ncol = 1 ∧ p.nnz = 1 := by
  simp [isDenseScalar, isScalar, and_assoc]

end Pattern

namespace SparseMatrix

/-- The pattern is well formed, its places can be counted, and there is a node for each nonzero. -/
structure Sound (m : SparseMatrix K) : Prop where
  wellFormed : m.pattern.WellFormed
  entriesFit : m.pattern.EntriesFit
  filled : m.Filled

variable {m m' : SparseMatrix K} {r c : Int64}

theorem Sound.exists_get? (h : m.Sound) {k : Nat} (hk : m.pattern.find? r c = some k) :
    ∃ n, m.nonzeros[k]? = some n ∧ m.get? r c = some n := by
  have hlt : k < m.nonzeros.length := (h.wellFormed.lt_nnz_of_find? hk).trans_eq h.filled.symm
  refine ⟨m.nonzeros[k], List.getElem?_eq_getElem hlt, ?_⟩
  rw [get?, hk, Option.bind_some, List.getElem?_eq_getElem hlt]

theorem mem_nonzeros_of_get? {n : Node K} (h : n ∈ m.get? r c) : n ∈ m.nonzeros := by
  obtain ⟨k, -, hk⟩ := Option.bind_eq_some_iff.1 h
  exact List.mem_of_getElem? hk

/-! ## Making a matrix dense -/

/-- The second matrix is the first one with every place a structural nonzero: where there was none,
`zero` stands. -/
structure Densified (zero : Node K) (m m' : SparseMatrix K) : Prop where
  sound : m'.Sound
  nrow : m'.pattern.nrow = m.pattern.nrow
  ncol : m'.pattern.ncol = m.pattern.ncol
  nnz : m'.pattern.nnz = m.pattern.columns * m.pattern.nrow.toNatClampNeg
  get? : ∀ r c, Cell.inRange m.pattern.nrow m.pattern.ncol { row := r, col := c } →
    m'.get? r c = some ((m.get? r c).getD zero)

/-- A matrix with every place stays as it is. -/
theorem Sound.densified_self (h : m.Sound) (hdense : m.pattern.isDense) (zero : Node K) :
    Densified zero m m := by
  have hnnz := (h.wellFormed.isDense_iff h.entriesFit).1 hdense
  refine ⟨h, rfl, rfl, hnnz, fun r c hrc => ?_⟩
  obtain ⟨n, -, hn⟩ := h.exists_get? (h.wellFormed.find?_of_nnz_eq hnnz hrc)
  rw [hn, Option.getD_some]

/-- Two matrices of one size that are both made dense have one pattern. -/
theorem Densified.pattern_eq {zx zy : Node K} {x y x' y' : SparseMatrix K} (hx : Densified zx x x')
    (hy : Densified zy y y') (hsize : x.pattern.sameSize y.pattern) : x'.pattern = y'.pattern := by
  obtain ⟨hnrow, hncol⟩ := Pattern.sameSize_iff.1 hsize
  refine hx.sound.wellFormed.eq_of_nnz_eq hy.sound.wellFormed ?_ ?_ ?_ ?_
  · rw [hx.nnz, Pattern.columns, Pattern.columns, hx.ncol, hx.nrow]
  · rw [hy.nnz, Pattern.columns, Pattern.columns, hy.ncol, hy.nrow]
  · rw [hx.nrow, hy.nrow, hnrow]
  · rw [hx.ncol, hy.ncol, hncol]

/-! ## The pass over the nonzeros -/

/-- The nonzeros that were passed are at their places, and `zero` is at all others. -/
structure Placed (m : SparseMatrix K) (zero : Node K) (done : List Pattern.Entry)
    (nodes : Array (Node K)) : Prop where
  size : nodes.size = m.pattern.columns * m.pattern.nrow.toNatClampNeg
  passed : ∀ e ∈ done, nodes[m.pattern.place e.cell]? = m.nonzeros[e.index]?
  others : ∀ i < nodes.size, (∀ e ∈ done, m.pattern.place e.cell ≠ i) → nodes[i]? = some zero

theorem placed_replicate (m : SparseMatrix K) (zero : Node K) :
    Placed m zero []
      (Array.replicate (m.pattern.columns * m.pattern.nrow.toNatClampNeg) zero) where
  size := Array.size_replicate
  passed e he := absurd he List.not_mem_nil
  others i hi _ := by
    rw [Array.size_replicate] at hi
    rw [Array.getElem?_replicate, if_pos hi]

/-- To put a nonzero at its place succeeds and changes no other place. -/
theorem Sound.placeNode_eq (h : m.Sound) {nodes : Array (Node K)} {e : Pattern.Entry}
    (hsize : nodes.size = m.pattern.columns * m.pattern.nrow.toNatClampNeg)
    (he : e ∈ m.pattern.entries) :
    ∃ n, m.nonzeros[e.index]? = some n ∧
      m.placeNode nodes e = .ok (nodes.setIfInBounds (m.pattern.place e.cell) n) := by
  have hcell := h.wellFormed.inRange_cells (List.mem_map_of_mem he)
  obtain ⟨n, hn, -⟩ := h.exists_get? (h.wellFormed.find?_eq_some_iff.2 ⟨e, he, rfl, rfl⟩)
  have hlt := Pattern.place_lt hcell
  have hplaces : m.pattern.columns * m.pattern.nrow.toNatClampNeg < 2 ^ 63 :=
    (Pattern.mul_toNatClampNeg_lt h.wellFormed.nrow_nonneg h.wellFormed.ncol_nonneg).1 h.entriesFit
  refine ⟨n, hn, ?_⟩
  rw [placeNode, hn]
  simp only [Pattern.ofNat_place h.wellFormed.nrow_nonneg hcell]
  exact Buffer.write_ofNat (hlt.trans_eq hsize.symm) (hlt.trans hplaces) n

theorem Placed.placeNode {zero : Node K} {done : List Pattern.Entry} {nodes : Array (Node K)}
    {e : Pattern.Entry} (hp : Placed m zero done nodes) (h : m.Sound)
    (hdone : ∀ d ∈ done, d ∈ m.pattern.entries) (he : e ∈ m.pattern.entries) :
    ∃ nodes', m.placeNode nodes e = .ok nodes' ∧ Placed m zero (done ++ [e]) nodes' := by
  obtain ⟨n, hn, hput⟩ := h.placeNode_eq hp.size he
  have hcell : ∀ {d}, d ∈ m.pattern.entries → d.cell.inRange m.pattern.nrow m.pattern.ncol :=
    fun hd => h.wellFormed.inRange_cells (List.mem_map_of_mem hd)
  have hself : (nodes.setIfInBounds (m.pattern.place e.cell) n)[m.pattern.place e.cell]? =
      some n :=
    Array.getElem?_setIfInBounds_self_of_lt ((Pattern.place_lt (hcell he)).trans_eq hp.size.symm)
  refine ⟨_, hput, by rw [Array.size_setIfInBounds, hp.size], ?_, ?_⟩
  · intro d hd
    rcases List.mem_append.1 hd with hd | hd
    · by_cases hplace : m.pattern.place e.cell = m.pattern.place d.cell
      · -- What has the same place is the same nonzero.
        have heq : e.cell = d.cell := Pattern.place_inj (hcell he) (hcell (hdone d hd)) hplace
        have hd : { index := d.index, cell := e.cell } ∈ m.pattern.entries := heq ▸ hdone d hd
        rw [← hplace, hself, ← h.wellFormed.index_eq he hd, hn]
      · rw [Array.getElem?_setIfInBounds_ne hplace, hp.passed d hd]
    · rw [List.mem_singleton.1 hd, hself, hn]
  · intro i hi hother
    rw [Array.size_setIfInBounds] at hi
    rw [Array.getElem?_setIfInBounds_ne (hother e (by simp))]
    exact hp.others i hi fun d hd => hother d (List.mem_append_left _ hd)

theorem Sound.exists_placed (h : m.Sound) (zero : Node K) :
    ∃ nodes, m.placeNodes
        (Array.replicate (m.pattern.columns * m.pattern.nrow.toNatClampNeg) zero) = .ok nodes ∧
      Placed m zero m.pattern.entries nodes := by
  rw [placeNodes, h.wellFormed.walk_eq]
  refine (Ends.foldlM (P := Placed m zero) (placed_replicate m zero) ?_).exists_ok
  intro done e rest nodes hsplit hp
  refine .of_exists (hp.placeNode h (fun d hd => ?_) ?_)
  · rw [hsplit]
    exact List.mem_append_left _ hd
  · simp [hsplit]

/-- After the pass, there is a node at every place: the nonzero there, or `zero`. -/
theorem Placed.getElem?_place {zero : Node K} {nodes : Array (Node K)}
    (hp : Placed m zero m.pattern.entries nodes) (h : m.Sound)
    (hrc : Cell.inRange m.pattern.nrow m.pattern.ncol { row := r, col := c }) :
    nodes[m.pattern.place { row := r, col := c }]? = some ((m.get? r c).getD zero) := by
  cases hfind : m.pattern.find? r c with
  | some k =>
    obtain ⟨n, hn, hget⟩ := h.exists_get? hfind
    obtain ⟨e, he, rfl, hcell⟩ := h.wellFormed.find?_eq_some_iff.1 hfind
    rw [← hcell, hp.passed e he, hn, hget, Option.getD_some]
  | none =>
    have hnone : m.get? r c = none := by rw [get?, hfind, Option.bind_none]
    rw [hnone, Option.getD_none]
    refine hp.others _ ((Pattern.place_lt hrc).trans_eq hp.size.symm) fun e he hplace => ?_
    have hcell := Pattern.place_inj
      (h.wellFormed.inRange_cells (List.mem_map_of_mem he)) hrc hplace
    rw [h.wellFormed.find?_eq_some_iff.2 ⟨e, he, rfl, hcell⟩] at hfind
    cases hfind

theorem Placed.densified {zero : Node K} {nodes : Array (Node K)}
    (hp : Placed m zero m.pattern.entries nodes) (h : m.Sound) (hroom : m.pattern.HasRoom)
    (key : Nat) :
    Densified zero m
      { sp := ⟨key, Pattern.full m.pattern.nrow m.pattern.ncol⟩, nonzeros := nodes.toList } := by
  have hwf := Pattern.wellFormed_full h.wellFormed.nrow_nonneg h.wellFormed.ncol_nonneg
    hroom.offsets h.entriesFit
  have hnnz := Pattern.nnz_full m.pattern.nrow m.pattern.ncol
  have hfilled : nodes.toList.length = (Pattern.full m.pattern.nrow m.pattern.ncol).nnz := by
    rw [Array.length_toList, hp.size, hnnz, Pattern.columns]
  refine ⟨⟨hwf, h.entriesFit, hfilled⟩, rfl, rfl, hnnz, fun r c hrc => ?_⟩
  rw [SparseMatrix.get?, pattern, hwf.find?_of_nnz_eq hnnz hrc, Option.bind_some,
    Array.getElem?_toList]
  exact hp.getElem?_place h hrc

/-- There is every place already, or there is room for all. -/
def CanDensify (m : SparseMatrix K) : Prop :=
  m.pattern.isDense ∨ m.pattern.HasRoom

variable [Scalar K]

/-- A matrix can be made dense if there is room. -/
theorem Sound.exists_densified (h : m.Sound) (hroom : m.CanDensify) (next : Nat) :
    ∃ m' i next', m.densify.run next = (.ok m', next') ∧ next ≤ i ∧ next ≤ next' ∧
      Densified (.const i Scalar.zero) m m' := by
  by_cases hdense : m.pattern.isDense
  · refine ⟨m, next, next, ?_, Nat.le_refl _, Nat.le_refl _, h.densified_self hdense _⟩
    rw [densify, if_pos hdense]
    rfl
  · have hroom := hroom.resolve_left hdense
    have hdenseOk : Pattern.dense m.pattern.nrow m.pattern.ncol =
        .ok (Pattern.full m.pattern.nrow m.pattern.ncol) := by
      rw [Pattern.dense, if_pos ((h.wellFormed.fits_iff h.entriesFit).2 hroom)]
    obtain ⟨nodes, hnodes, hplaced⟩ := h.exists_placed (.const next Scalar.zero)
    rw [Pattern.columns, ← Pattern.nnz_full] at hnodes
    refine ⟨_, next, next + 2, ?_, Nat.le_refl _, Nat.le_add_right _ _,
      hplaced.densified h hroom (next + 1)⟩
    rw [densify, if_neg hdense, hdenseOk]
    -- The pattern is there and the zero is drawn; what follows depends on the pass.
    change ExceptT.run (do
      let nodes ← m.placeNodes (Array.replicate (Pattern.full m.pattern.nrow m.pattern.ncol).nnz
        (Node.const next Scalar.zero))
      let sp ← SharedPattern.share (Pattern.full m.pattern.nrow m.pattern.ncol)
      return { sp, nonzeros := nodes.toList } : Building (SparseMatrix K)) (next + 1) = _
    rw [hnodes]
    rfl

theorem Sound.densify_fault (h : m.Sound) (hroom : ¬m.CanDensify) (next : Nat) :
    m.densify.run next = (.error (.fault .outOfRange), next) := by
  obtain ⟨hdense, hroom⟩ := not_or.1 hroom
  have hdenseFault : Pattern.dense m.pattern.nrow m.pattern.ncol = .fault .outOfRange := by
    rw [Pattern.dense, if_neg (mt (h.wellFormed.fits_iff h.entriesFit).1 hroom)]
  rw [densify, if_neg hdense, hdenseFault]
  rfl

end SparseMatrix

end Tangent
