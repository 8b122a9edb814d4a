import Mathlib
import Tangent.Proofs.Constructors

/-!
# The compressed list of a pattern

A pattern with as many nonzeros as places has them all : a column has at most one nonzero for each
row, so no column can have fewer (`WellFormed.offset_eq_mul`), and what is in order and as long as
it can be is the whole range (`InOrder.eq_range`). This is why the short form of the compressed list
loses nothing. The long form starts with the offset zero where the short form has a one, so the two
are never confused (`eq_of_compress_eq`).
-/

namespace Tangent.Pattern

variable {p q : Pattern}

/-- The number of places is a machine integer. -/
def EntriesFit (p : Pattern) : Prop :=
  p.nrow.toInt * p.ncol.toInt < 2 ^ 63

/-- There is room for the offsets, and for the rows. -/
structure Stored (p : Pattern) : Prop where
  offsets : (p.offsets.length : Int) ≤ capacity.toInt
  rows : (p.rows.length : Int) ≤ capacity.toInt

instance : DecidablePred EntriesFit := fun p =>
  inferInstanceAs (Decidable (p.nrow.toInt * p.ncol.toInt < 2 ^ 63))

instance : DecidablePred Stored := fun p =>
  decidable_of_iff ((p.offsets.length : Int) ≤ capacity.toInt ∧
      (p.rows.length : Int) ≤ capacity.toInt)
    ⟨fun h => ⟨h.1, h.2⟩, fun h => ⟨h.1, h.2⟩⟩

/-! ## Patterns with every place -/

namespace InOrder

variable {nrow : Int64} {rows : List Int64}

theorem pairwise_toNatClampNeg (h : InOrder nrow rows) :
    (rows.map Int64.toNatClampNeg).Pairwise (· < ·) := by
  rw [List.pairwise_map]
  refine h.increasing.imp_of_mem fun {a b} ha hb hab => ?_
  have hna := Int64.toInt_eq_toNatClampNeg (h.inRange a ha).1
  have hnb := Int64.toInt_eq_toNatClampNeg (h.inRange b hb).1
  rw [Int64.lt_iff_toInt_lt] at hab
  omega

theorem subset_range (h : InOrder nrow rows) :
    rows.map Int64.toNatClampNeg ⊆ List.range nrow.toNatClampNeg := by
  intro k hk
  obtain ⟨r, hr, rfl⟩ := List.mem_map.1 hk
  obtain ⟨hzero, hlt⟩ := h.inRange r hr
  have hr := Int64.toInt_eq_toNatClampNeg hzero
  have hn := Int64.toInt_eq_toNatClampNeg (Int64.le_trans hzero (Int64.le_of_lt hlt))
  rw [Int64.lt_iff_toInt_lt] at hlt
  rw [List.mem_range]
  omega

theorem subperm_range (h : InOrder nrow rows) :
    (rows.map Int64.toNatClampNeg).Subperm (List.range nrow.toNatClampNeg) :=
  List.subperm_of_subset (h.pairwise_toNatClampNeg.imp Nat.ne_of_lt) h.subset_range

/-- A column has at most one nonzero for each row. -/
theorem length_le (h : InOrder nrow rows) : rows.length ≤ nrow.toNatClampNeg := by
  simpa using h.subperm_range.length_le

/-- A column with a nonzero for each row has all rows. -/
theorem eq_range (h : InOrder nrow rows) (hlen : rows.length = nrow.toNatClampNeg) :
    rows = (List.range nrow.toNatClampNeg).map Int64.ofNat := by
  have hperm := h.subperm_range.perm_of_length_le (by simp [hlen])
  have hnat : rows.map Int64.toNatClampNeg = List.range nrow.toNatClampNeg :=
    hperm.eq_of_pairwise (fun a b _ _ hab hba => absurd hba (Nat.lt_asymm hab))
      h.pairwise_toNatClampNeg List.pairwise_lt_range
  rw [← hnat, List.map_map]
  have hback : ∀ r ∈ rows, (Int64.ofNat ∘ Int64.toNatClampNeg) r = id r := fun r hr =>
    Int64.ofNat_toNatClampNeg r (h.inRange r hr).1
  rw [List.map_congr_left hback, List.map_id]

end InOrder

namespace WellFormed

theorem offset_succ_le (h : p.WellFormed) {c : Nat} (hc : c < p.columns) :
    p.offset (c + 1) ≤ p.offset c + p.nrow.toNatClampNeg := by
  have hlen := (h.inOrder c hc).length_le
  rw [h.length_column hc] at hlen
  omega

theorem offset_add_le (h : p.WellFormed) {c : Nat} :
    ∀ n, c + n ≤ p.columns → p.offset (c + n) ≤ p.offset c + n * p.nrow.toNatClampNeg
  | 0, _ => by simp
  | n + 1, hn => by
    have ih := h.offset_add_le (c := c) n (by omega)
    have hstep := h.offset_succ_le (c := c + n) (by omega)
    rw [Nat.add_mul, ← Nat.add_assoc]
    omega

/-- If there are as many nonzeros as places, no column has fewer nonzeros than rows. -/
theorem offset_eq_mul (h : p.WellFormed) (hnnz : p.nnz = p.columns * p.nrow.toNatClampNeg) {c : Nat}
    (hc : c ≤ p.columns) : p.offset c = c * p.nrow.toNatClampNeg := by
  have hbefore := h.offset_add_le (c := 0) c (by omega)
  have hafter := h.offset_add_le (c := c) (p.columns - c) (by omega)
  rw [Nat.zero_add, h.offset_zero, Nat.zero_add] at hbefore
  rw [Nat.add_sub_cancel' hc, h.offset_columns, hnnz, Nat.sub_mul] at hafter
  have hle := Nat.mul_le_mul_right p.nrow.toNatClampNeg hc
  omega

/-- The offsets of a pattern with every place. -/
theorem offsets_of_nnz_eq (h : p.WellFormed) (hnnz : p.nnz = p.columns * p.nrow.toNatClampNeg) :
    p.offsets = (List.range (p.columns + 1)).map fun c =>
      Int64.ofNat (c * p.nrow.toNatClampNeg) := by
  refine List.ext_getElem? fun c => ?_
  rcases Nat.lt_or_ge p.columns c with hc | hc
  · rw [List.getElem?_eq_none (by rw [h.length_offsets]; omega),
      List.getElem?_eq_none (by rw [List.length_map, List.length_range]; omega)]
  · obtain ⟨o, ho⟩ := h.getElem?_offsets hc
    have hint := h.toInt_of_getElem? ho
    rw [h.offset_eq_mul hnnz hc] at hint
    have hlt : c * p.nrow.toNatClampNeg < 2 ^ 63 := by
      rw [← h.offset_eq_mul hnnz hc]
      exact (h.offset_le_nnz hc).trans_lt h.nnz_lt
    rw [ho, List.getElem?_map, List.getElem?_range (by omega), Option.map_some,
      Option.some.injEq, ← Int64.toInt_inj, hint, Int64.toInt_ofNat_of_lt hlt]

theorem column_of_nnz_eq (h : p.WellFormed) (hnnz : p.nnz = p.columns * p.nrow.toNatClampNeg)
    {c : Nat} (hc : c < p.columns) :
    p.column c = (List.range p.nrow.toNatClampNeg).map Int64.ofNat := by
  refine (h.inOrder c hc).eq_range ?_
  rw [h.length_column hc, h.offset_eq_mul hnnz hc.le, h.offset_eq_mul hnnz hc, Nat.succ_mul,
    Nat.add_sub_cancel_left]

/-- The rows of a pattern with every place. -/
theorem rows_of_nnz_eq (h : p.WellFormed) (hnnz : p.nnz = p.columns * p.nrow.toNatClampNeg) :
    p.rows = (List.replicate p.columns
      ((List.range p.nrow.toNatClampNeg).map Int64.ofNat)).flatten := by
  rw [← h.flatten_columns, List.map_congr_left fun c hc =>
    h.column_of_nnz_eq hnnz (List.mem_range.1 hc), List.map_const', List.length_range]

theorem isDense_iff (h : p.WellFormed) (hfit : p.EntriesFit) :
    p.isDense ↔ p.nnz = p.columns * p.nrow.toNatClampNeg := by
  have hnrow := Int64.toInt_eq_toNatClampNeg h.nrow_nonneg
  have hncol := Int64.toInt_eq_toNatClampNeg h.ncol_nonneg
  rw [isDense, beq_iff_eq, ← Int64.toInt_inj, Int64.toInt_ofNat_of_lt h.nnz_lt, numel,
    toInt_mul_of_lt h.nrow_nonneg h.ncol_nonneg hfit, hnrow, hncol, mul_comm, columns]
  exact_mod_cast Iff.rfl

/-- Patterns with every place are equal if their sizes are. -/
theorem eq_of_nnz_eq (hp : p.WellFormed) (hq : q.WellFormed)
    (hpn : p.nnz = p.columns * p.nrow.toNatClampNeg)
    (hqn : q.nnz = q.columns * q.nrow.toNatClampNeg)
    (hnrow : p.nrow = q.nrow) (hncol : p.ncol = q.ncol) : p = q := by
  have hoffsets : p.offsets = q.offsets := by
    rw [hp.offsets_of_nnz_eq hpn, hq.offsets_of_nnz_eq hqn, columns, columns, hnrow, hncol]
  have hrows : p.rows = q.rows := by
    rw [hp.rows_of_nnz_eq hpn, hq.rows_of_nnz_eq hqn, columns, columns, hnrow, hncol]
  cases p
  cases q
  simp_all

end WellFormed

/-! ## Compressing and reading back -/

theorem compress_of_isDense (h : p.isDense && 0 < p.numel) : p.compress = [p.nrow, p.ncol, 1] := by
  rw [compress, if_pos h]
  rfl

theorem compress_of_not_isDense (h : ¬(p.isDense && 0 < p.numel)) :
    p.compress = p.nrow :: p.ncol :: (p.offsets ++ p.rows) := by
  rw [compress, if_neg h]
  rfl

/-- The long form has a zero where the short form has a one. -/
theorem Framed.offsets_append_ne (h : p.Framed) : p.offsets ++ p.rows ≠ [1] := by
  intro he
  have hhead := h.head?_offsets
  obtain ⟨o, offsets, hoffsets⟩ := List.exists_cons_of_length_eq_add_one h.length_offsets
  rw [hoffsets, List.head?_cons, Option.some.injEq] at hhead
  rw [hoffsets, List.cons_append, hhead] at he
  exact absurd (List.cons.inj he).1 (by decide)

theorem ofCompressed_short (h : p.WellFormed) (hfit : p.EntriesFit) (hs : p.Stored)
    (hdense : p.isDense) (hpos : 0 < p.numel) : ofCompressed [p.nrow, p.ncol, 1] = .ok p := by
  have hnnz := (h.isDense_iff hfit).1 hdense
  have hroom : p.ncol.toInt < capacity.toInt := by
    have hlen := hs.offsets
    rw [h.length_offsets, columns] at hlen
    rw [Int64.toInt_eq_toNatClampNeg h.ncol_nonneg]
    omega
  have hplaces : p.nrow.toInt * p.ncol.toInt ≤ capacity.toInt := by
    have hlen := hs.rows
    rw [← nnz, hnnz, columns] at hlen
    rw [Int64.toInt_eq_toNatClampNeg h.nrow_nonneg, Int64.toInt_eq_toNatClampNeg h.ncol_nonneg,
      mul_comm]
    exact_mod_cast hlen
  have hfull : full p.nrow p.ncol = p :=
    (wellFormed_full h.nrow_nonneg h.ncol_nonneg hroom hfit).eq_of_nnz_eq h
      (nnz_full p.nrow p.ncol) hnnz rfl rfl
  have hread : ofCompressed [p.nrow, p.ncol, 1] = dense p.nrow p.ncol := by
    rw [numel] at hpos
    simp [ofCompressed, hpos]
  rw [hread, dense, hfull, (fits_add_one_iff h.ncol_nonneg).2 hroom,
    (fits_mul_iff h.nrow_nonneg h.ncol_nonneg hfit).2 hplaces]
  rfl

theorem ofCompressed_long (h : p.WellFormed) (hs : p.Stored) :
    ofCompressed (p.nrow :: p.ncol :: (p.offsets ++ p.rows)) = .ok p := by
  have hoffsets := hs.offsets
  have hrows := hs.rows
  rw [toInt_capacity] at hoffsets hrows
  have hlen := h.length_offsets
  have hne : p.offsets ++ p.rows ≠ [] := by
    intro he
    rw [(List.append_eq_nil_iff.1 he).1] at hlen
    simp at hlen
  have hncol := Int64.toInt_eq_toNatClampNeg h.ncol_nonneg
  rw [columns] at hlen
  rcases ofCompressed_cases p.nrow p.ncol hne (fun he => h.offsets_append_ne he.1)
      (by rw [List.length_append]; omega) with ⟨hwrap, -⟩ | ⟨-, hbad, -⟩ | ⟨-, -, -, hread⟩
  · omega
  · rcases hbad with hneg | hshort
    · exact absurd h.ncol_nonneg (Int64.not_le.2 hneg)
    · rw [List.length_append] at hshort
      omega
  · rw [hread, List.take_left' hlen, List.drop_left' hlen]
    exact (ofColumns_ok_iff (by omega) (by omega)).2 ⟨rfl, h⟩

theorem ofCompressed_compress (h : p.WellFormed) (hfit : p.EntriesFit) (hs : p.Stored) :
    ofCompressed p.compress = .ok p := by
  by_cases hdense : p.isDense && 0 < p.numel
  · rw [compress_of_isDense hdense]
    rw [Bool.and_eq_true, decide_eq_true_eq] at hdense
    exact ofCompressed_short h hfit hs hdense.1 hdense.2
  · rw [compress_of_not_isDense hdense]
    exact ofCompressed_long h hs

theorem eq_of_compress_eq (hp : p.WellFormed) (hpfit : p.EntriesFit) (hq : q.WellFormed)
    (hqfit : q.EntriesFit) (he : p.compress = q.compress) : p = q := by
  by_cases hpd : p.isDense && 0 < p.numel <;> by_cases hqd : q.isDense && 0 < q.numel
  · rw [compress_of_isDense hpd, compress_of_isDense hqd] at he
    rw [Bool.and_eq_true] at hpd hqd
    simp only [List.cons.injEq, and_true] at he
    exact hp.eq_of_nnz_eq hq ((hp.isDense_iff hpfit).1 hpd.1) ((hq.isDense_iff hqfit).1 hqd.1)
      he.1 he.2
  · rw [compress_of_isDense hpd, compress_of_not_isDense hqd] at he
    simp only [List.cons.injEq] at he
    exact absurd he.2.2.symm hq.offsets_append_ne
  · rw [compress_of_not_isDense hpd, compress_of_isDense hqd] at he
    simp only [List.cons.injEq] at he
    exact absurd he.2.2 hp.offsets_append_ne
  · rw [compress_of_not_isDense hpd, compress_of_not_isDense hqd] at he
    simp only [List.cons.injEq] at he
    obtain ⟨hnrow, hncol, he⟩ := he
    have hlen : p.offsets.length = q.offsets.length := by
      rw [hp.length_offsets, hq.length_offsets, columns, columns, hncol]
    obtain ⟨hoffsets, hrows⟩ := List.append_inj he hlen
    cases p
    cases q
    simp_all

/-- The compressed list of a pattern that can be stored is read back as the pattern, and patterns
have the same compressed list only if they are the same. -/
theorem compress_lossless (hp : p.WellFormed) (hpfit : p.EntriesFit) (hq : q.WellFormed)
    (hqfit : q.EntriesFit) :
    (p.Stored → ofCompressed p.compress = .ok p) ∧ (p.compress = q.compress ↔ p = q) :=
  ⟨ofCompressed_compress hp hpfit,
    eq_of_compress_eq hp hpfit hq hqfit, fun he => he ▸ rfl⟩

/-- Two patterns whose compressed lists have three elements : the long form of one without columns,
and the short form of one with a single place. -/
theorem compress_lossless_short :
    ofCompressed (compress ⟨1, 0, [0], []⟩) = .ok ⟨1, 0, [0], []⟩ ∧
      ofCompressed scalar.compress = .ok scalar ∧
      compress ⟨1, 0, [0], []⟩ = [1, 0, 0] ∧ scalar.compress = [1, 1, 1] ∧
      (compress ⟨1, 0, [0], []⟩ = scalar.compress ↔ ⟨1, 0, [0], []⟩ = scalar) := by
  have hfit : EntriesFit ⟨1, 0, [0], []⟩ ∧ scalar.EntriesFit := by decide +kernel
  have hwf : WellFormed ⟨1, 0, [0], []⟩ ∧ scalar.WellFormed := by decide
  have hlong := compress_lossless hwf.1 hfit.1 hwf.2 hfit.2
  have hshort := compress_lossless hwf.2 hfit.2 hwf.2 hfit.2
  exact ⟨hlong.1 (by decide), hshort.1 (by decide), by decide, by decide, hlong.2⟩

end Tangent.Pattern
