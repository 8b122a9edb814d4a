import Mathlib
import Tangent.Pattern.Compress
import Tangent.Proofs.Cells

/-!
# Well-formed patterns

A pattern is `WellFormed` if its offsets lead from zero to the number of its rows without ever going
back, and the rows of each column are in range and strictly increasing.
-/

namespace Tangent

theorem toNatClampNeg_mono {a b : Int64} (h : a ≤ b) : a.toNatClampNeg ≤ b.toNatClampNeg := by
  rw [Int64.le_iff_toInt_le] at h
  exact Int.toNat_le_toNat h

/-- A number of things is one more than a machine integer only if that has a successor. -/
theorem ofNat_eq_add_one_iff {n : Int64} {k : Nat} (hn : 0 ≤ n) (hk : k < 2 ^ 63) :
    Int64.ofNat k = n + 1 ↔ k = n.toNatClampNeg + 1 := by
  have hcast := Int64.toInt_eq_toNatClampNeg hn
  have hlt := Int64.toNatClampNeg_lt n
  have hone : (1 : Int64).toInt = 1 := rfl
  rw [← Int64.toInt_inj, Int64.toInt_ofNat_of_lt hk, Int64.toInt_add, hcast, hone, Int.bmod_def]
  split_ifs <;> omega

/-- Nothing happens after an inconsistency. -/
theorem inconsistent_bind {α β : Type} (cause : Inconsistency) (f : α → Result β) :
    (Result.inconsistent cause >>= f) = Result.inconsistent cause :=
  rfl

namespace Pattern

/-! ## The definition -/

/-- The rows are in range and strictly increasing. -/
structure InOrder (nrow : Int64) (rows : List Int64) : Prop where
  inRange : ∀ r ∈ rows, 0 ≤ r ∧ r < nrow
  increasing : rows.Pairwise (· < ·)

/-- The sizes are not negative, and there are offsets for all columns, the first of which is zero
and the last of which is the number of rows. -/
structure Framed (p : Pattern) : Prop where
  nrow_nonneg : 0 ≤ p.nrow
  ncol_nonneg : 0 ≤ p.ncol
  length_offsets : p.offsets.length = p.columns + 1
  head?_offsets : p.offsets.head? = some 0
  getLast?_offsets : p.offsets.getLast?.map Int64.toInt = some (p.nnz : Int)

structure WellFormed (p : Pattern) : Prop extends p.Framed where
  nondecreasing : p.offsets.Pairwise (· ≤ ·)
  inOrder : ∀ c < p.columns, InOrder p.nrow (p.column c)

instance (nrow : Int64) : DecidablePred (InOrder nrow) := fun rows =>
  decidable_of_iff ((rows.all fun r => 0 ≤ r && r < nrow) ∧ rows.Pairwise (· < ·))
    ⟨fun h => ⟨by simpa using h.1, h.2⟩, fun h => ⟨by simpa using h.1, h.2⟩⟩

instance : DecidablePred Framed := fun p =>
  decidable_of_iff (0 ≤ p.nrow ∧ 0 ≤ p.ncol ∧ p.offsets.length = p.columns + 1 ∧
      p.offsets.head? = some 0 ∧ p.offsets.getLast?.map Int64.toInt = some (p.nnz : Int))
    ⟨fun h => ⟨h.1, h.2.1, h.2.2.1, h.2.2.2.1, h.2.2.2.2⟩, fun h => ⟨h.1, h.2, h.3, h.4, h.5⟩⟩

instance : DecidablePred WellFormed := fun p =>
  decidable_of_iff (p.Framed ∧ p.offsets.Pairwise (· ≤ ·) ∧
      ∀ c < p.columns, InOrder p.nrow (p.column c))
    ⟨fun h => ⟨h.1, h.2.1, h.2.2⟩, fun h => ⟨h.1, h.2, h.3⟩⟩

/-! ## Offsets -/

/-- The rows between two offsets. -/
def between (rows : List Int64) (start stop : Int64) : List Int64 :=
  (rows.drop start.toNatClampNeg).take (stop.toNatClampNeg - start.toNatClampNeg)

theorem between_of_length_le {rows : List Int64} (start : Int64) {stop : Int64}
    (h : rows.length ≤ stop.toNatClampNeg) :
    between rows start stop = rows.drop start.toNatClampNeg :=
  List.take_of_length_le (by rw [List.length_drop]; omega)

/-- Stretches that follow each other make up the list as far as they go. -/
theorem flatten_stretches {α : Type} (xs : List α) (f : Nat → Nat) (hzero : f 0 = 0) :
    ∀ n, (∀ c < n, f c ≤ f (c + 1)) →
      ((List.range n).map fun c => (xs.drop (f c)).take (f (c + 1) - f c)).flatten = xs.take (f n)
  | 0, _ => by simp [hzero]
  | n + 1, h => by
    have hsplit : f (n + 1) = f n + (f (n + 1) - f n) := by
      have := h n (Nat.lt_succ_self n)
      omega
    rw [List.range_succ, List.map_append, List.flatten_append,
      flatten_stretches xs f hzero n fun c hc => h c (by omega), hsplit, List.take_add]
    simp

variable {p : Pattern}

theorem offset_of_getElem? {c : Nat} {o : Int64} (h : p.offsets[c]? = some o) :
    p.offset c = o.toNatClampNeg := by
  rw [offset, h, Option.getD_some]

theorem column_eq_between {c : Nat} {start stop : Int64} (hstart : p.offsets[c]? = some start)
    (hstop : p.offsets[c + 1]? = some stop) : p.column c = between p.rows start stop := by
  rw [column, offset_of_getElem? hstart, offset_of_getElem? hstop, between]

namespace Framed

theorem getElem?_offsets (h : p.Framed) {c : Nat} (hc : c ≤ p.columns) :
    ∃ o, p.offsets[c]? = some o :=
  ⟨_, List.getElem?_eq_getElem (by rw [h.length_offsets]; omega)⟩

theorem offset_zero (h : p.Framed) : p.offset 0 = 0 := by
  have hhead := h.head?_offsets
  rw [List.head?_eq_getElem?] at hhead
  simp [offset_of_getElem? hhead]

theorem offset_columns (h : p.Framed) : p.offset p.columns = p.nnz := by
  have hlast := h.getLast?_offsets
  rw [List.getLast?_eq_getElem?, h.length_offsets, Nat.add_sub_cancel] at hlast
  obtain ⟨o, ho, hnnz⟩ := Option.map_eq_some_iff.1 hlast
  simp [offset_of_getElem? ho, Int64.toNatClampNeg, hnnz]

theorem nnz_lt (h : p.Framed) : p.nnz < 2 ^ 63 := by
  rw [← h.offset_columns]
  exact Int64.toNatClampNeg_lt _

end Framed

namespace WellFormed

theorem offset_mono (h : p.WellFormed) {c d : Nat} (hcd : c ≤ d) (hd : d ≤ p.columns) :
    p.offset c ≤ p.offset d := by
  obtain ⟨a, ha⟩ := h.getElem?_offsets (Nat.le_trans hcd hd)
  obtain ⟨b, hb⟩ := h.getElem?_offsets hd
  rw [offset_of_getElem? ha, offset_of_getElem? hb]
  rcases Nat.lt_or_eq_of_le hcd with hlt | rfl
  · obtain ⟨hc, rfl⟩ := List.getElem?_eq_some_iff.1 ha
    obtain ⟨hd, rfl⟩ := List.getElem?_eq_some_iff.1 hb
    exact toNatClampNeg_mono (List.pairwise_iff_getElem.1 h.nondecreasing c d hc hd hlt)
  · rw [Option.some.inj (ha.symm.trans hb)]

theorem offset_le_nnz (h : p.WellFormed) {c : Nat} (hc : c ≤ p.columns) : p.offset c ≤ p.nnz :=
  h.offset_columns ▸ h.offset_mono hc (Nat.le_refl _)

/-- Offsets of a well-formed pattern are not negative. -/
theorem toInt_of_getElem? (h : p.WellFormed) {c : Nat} {o : Int64} (ho : p.offsets[c]? = some o) :
    o.toInt = p.offset c := by
  have hzero : 0 ≤ o := by
    have hhead := h.head?_offsets
    rw [List.head?_eq_getElem?] at hhead
    obtain ⟨_, hzero⟩ := List.getElem?_eq_some_iff.1 hhead
    obtain ⟨hc, rfl⟩ := List.getElem?_eq_some_iff.1 ho
    rcases Nat.eq_zero_or_pos c with rfl | hpos
    · rw [hzero]
      exact Int64.le_refl _
    · rw [← hzero]
      exact List.pairwise_iff_getElem.1 h.nondecreasing 0 c _ hc hpos
  rw [offset_of_getElem? ho, Int64.toInt_eq_toNatClampNeg hzero]

/-- The rows are those of the columns, one after the other. -/
theorem flatten_columns (h : p.WellFormed) :
    ((List.range p.columns).map p.column).flatten = p.rows := by
  have hflat := flatten_stretches p.rows p.offset h.offset_zero p.columns fun c hc =>
    h.offset_mono (Nat.le_succ c) hc
  rw [h.offset_columns, nnz, List.take_length] at hflat
  exact hflat

theorem inRange (h : p.WellFormed) {r : Int64} (hr : r ∈ p.rows) : 0 ≤ r ∧ r < p.nrow := by
  rw [← h.flatten_columns, List.mem_flatten] at hr
  obtain ⟨column, hcolumn, hr⟩ := hr
  obtain ⟨c, hc, rfl⟩ := List.mem_map.1 hcolumn
  exact (h.inOrder c (List.mem_range.1 hc)).inRange r hr

theorem length_column (h : p.WellFormed) {c : Nat} (hc : c < p.columns) :
    (p.column c).length = p.offset (c + 1) - p.offset c := by
  have hle := h.offset_le_nnz (c := c + 1) hc
  rw [nnz] at hle
  rw [column, List.length_take, List.length_drop]
  omega

end WellFormed

/-! ## From columns -/

/-- A column that starts and ends at the given offsets is a stretch of the rows, in order. -/
structure ColumnFits (nrow : Int64) (rows : List Int64) (start stop : Int64) : Prop where
  le : start ≤ stop
  stop_le : stop.toNatClampNeg ≤ rows.length
  inOrder : InOrder nrow (between rows start stop)

/-- The columns fit up to one that ends beyond the rows, although all rows from its start on are in
order. -/
def Overruns (nrow : Int64) (rows offsets : List Int64) : Prop :=
  ∃ before start stop after, offsets = before ++ start :: stop :: after ∧
    (before ++ [start]).IsChain (ColumnFits nrow rows) ∧ start ≤ stop ∧
    rows.length < stop.toNatClampNeg ∧ InOrder nrow (rows.drop start.toNatClampNeg)

/-- In a pattern with offsets for all columns, the columns are what lies between consecutive
offsets. -/
theorem Framed.wellFormed_iff (hf : p.Framed) :
    p.WellFormed ↔ p.offsets.IsChain (ColumnFits p.nrow p.rows) := by
  have htrans : Trans (α := Int64) (· ≤ ·) (· ≤ ·) (· ≤ ·) := ⟨Int64.le_trans⟩
  have hlen := hf.length_offsets
  constructor
  · intro h
    refine List.isChain_iff_getElem.2 fun c hc => ?_
    have hstart : p.offsets[c]? = some p.offsets[c] := List.getElem?_eq_getElem _
    have hstop : p.offsets[c + 1]? = some p.offsets[c + 1] := List.getElem?_eq_getElem _
    refine ⟨?_, ?_, ?_⟩
    · exact List.isChain_iff_getElem.1 (List.isChain_iff_pairwise.2 h.nondecreasing) c hc
    · rw [← offset_of_getElem? hstop]
      exact h.offset_le_nnz (by omega)
    · rw [← column_eq_between hstart hstop]
      exact h.inOrder c (by omega)
  · intro hchain
    refine ⟨hf, List.isChain_iff_pairwise.1 (hchain.imp fun _ _ h => h.le), fun c hc => ?_⟩
    have hstart : p.offsets[c]? = some p.offsets[c] := List.getElem?_eq_getElem _
    have hstop : p.offsets[c + 1]? = some p.offsets[c + 1] := List.getElem?_eq_getElem _
    rw [column_eq_between hstart hstop]
    exact (List.isChain_iff_getElem.1 hchain c (by omega)).inOrder

section Checks

variable {nrow : Int64} {rows : List Int64}

theorem checkRows_ok_iff {col : Nat} {previous : Option Int64} {rs : List Int64} :
    checkRows nrow col previous rs = .ok () ↔
      (∀ r ∈ rs, 0 ≤ r ∧ r < nrow) ∧ (previous.toList ++ rs).IsChain (· < ·) := by
  induction rs generalizing previous with
  | nil => cases previous <;> simp [checkRows, pure, Except.pure]
  | cons r rs ih =>
    rw [checkRows]
    split_ifs with hr hp
    · refine iff_of_false (by rintro ⟨⟩) fun h => ?_
      have hin := h.1 r List.mem_cons_self
      simp [Int64.not_lt.2 hin.1, Int64.not_le.2 hin.2] at hr
    · refine iff_of_false (by rintro ⟨⟩) fun h => ?_
      obtain ⟨q, rfl, hq⟩ := (Option.any_eq_true _ _).1 hp
      simp only [Option.toList_some, List.singleton_append, List.isChain_cons_cons] at h
      exact Int64.not_le.2 h.2.1 (by simpa using hq)
    · simp only [Bool.or_eq_true, decide_eq_true_eq, not_or, Int64.not_lt, Int64.not_le] at hr
      have hchain : (previous.toList ++ r :: rs).IsChain (· < ·) ↔ (r :: rs).IsChain (· < ·) := by
        cases previous with
        | none => simp
        | some q =>
          have hlt : q < r := by simpa [Int64.not_le] using hp
          simp [List.isChain_cons_cons, hlt]
      rw [ih, hchain]
      simp [hr]

theorem checkRows_none {col : Nat} {rs : List Int64} :
    checkRows nrow col none rs = .ok () ↔ InOrder nrow rs := by
  have htrans : Trans (α := Int64) (· < ·) (· < ·) (· < ·) := ⟨Int64.lt_trans⟩
  rw [checkRows_ok_iff, Option.toList_none, List.nil_append, List.isChain_iff_pairwise]
  exact ⟨fun h => ⟨h.1, h.2⟩, fun h => ⟨h.1, h.2⟩⟩

theorem checkRows_cases (nrow : Int64) (col : Nat) (previous : Option Int64) (rs : List Int64) :
    checkRows nrow col previous rs = .ok () ∨
      ∃ cause, checkRows nrow col previous rs = .inconsistent cause := by
  fun_induction checkRows nrow col previous rs with
  | case1 previous => exact .inl rfl
  | case2 previous r rs => exact .inr ⟨_, rfl⟩
  | case3 previous r rs => exact .inr ⟨_, rfl⟩
  | case4 previous r rs _ _ ih => exact ih

/-- The check of one column finds it inconsistent, runs out of rows, or goes on to the next one. -/
theorem checkColumns_cons (nrow : Int64) (rows : List Int64) (col : Nat) (start stop : Int64)
    (offsets : List Int64) :
    (¬(start ≤ stop ∧ InOrder nrow (between rows start stop)) ∧
      ∃ cause, checkColumns nrow rows col (start :: stop :: offsets) = .inconsistent cause) ∨
    (start ≤ stop ∧ InOrder nrow (between rows start stop) ∧ rows.length < stop.toNatClampNeg ∧
      checkColumns nrow rows col (start :: stop :: offsets) = .fault .outOfRange) ∨
    (ColumnFits nrow rows start stop ∧ checkColumns nrow rows col (start :: stop :: offsets) =
      checkColumns nrow rows (col + 1) (stop :: offsets)) := by
  rw [checkColumns]
  by_cases hle : start ≤ stop
  · have hsum : start.toNatClampNeg + (stop.toNatClampNeg - start.toNatClampNeg) =
        stop.toNatClampNeg := by
      have := toNatClampNeg_mono hle
      omega
    simp only [Int64.not_lt.2 hle, if_false, hsum, bind, Except.bind]
    rcases checkRows_cases nrow col none (between rows start stop) with hrows | ⟨cause, hrows⟩
    · have hin := checkRows_none.1 hrows
      rw [between] at hrows
      simp only [hrows]
      split_ifs with hlen
      · exact .inr (.inl ⟨hle, hin, hlen, rfl⟩)
      · exact .inr (.inr ⟨⟨hle, by omega, hin⟩, rfl⟩)
    · refine .inl ⟨fun h => ?_, cause, ?_⟩
      · rw [checkRows_none.2 h.2] at hrows
        cases hrows
      · rw [between] at hrows
        simp only [hrows]
        rfl
  · refine .inl ⟨fun h => hle h.1, .offsetsDecrease col, ?_⟩
    simp only [Int64.not_le.1 hle, if_true, bind, Except.bind]
    rfl

theorem checkColumns_ok_iff {col : Nat} {offsets : List Int64} :
    checkColumns nrow rows col offsets = .ok () ↔ offsets.IsChain (ColumnFits nrow rows) := by
  induction offsets generalizing col with
  | nil => simp [checkColumns, pure, Except.pure]
  | cons start offsets ih =>
    cases offsets with
    | nil => simp [checkColumns, pure, Except.pure]
    | cons stop offsets =>
      rw [List.isChain_cons_cons]
      rcases checkColumns_cons nrow rows col start stop offsets with
        ⟨hbad, cause, h⟩ | ⟨hle, hin, hlen, h⟩ | ⟨hfit, h⟩
      · rw [h]
        exact iff_of_false (by rintro ⟨⟩) fun hc => hbad ⟨hc.1.le, hc.1.inOrder⟩
      · rw [h]
        exact iff_of_false (by rintro ⟨⟩) fun hc => Nat.not_le.2 hlen hc.1.stop_le
      · rw [h, ih]
        exact ⟨fun hc => ⟨hfit, hc⟩, And.right⟩

theorem checkColumns_cases (nrow : Int64) (rows : List Int64) (col : Nat) (offsets : List Int64) :
    checkColumns nrow rows col offsets = .ok () ∨
      checkColumns nrow rows col offsets = .fault .outOfRange ∨
      ∃ cause, checkColumns nrow rows col offsets = .inconsistent cause := by
  induction offsets generalizing col with
  | nil => exact .inl rfl
  | cons start offsets ih =>
    cases offsets with
    | nil => exact .inl rfl
    | cons stop offsets =>
      rcases checkColumns_cons nrow rows col start stop offsets with
        ⟨-, cause, h⟩ | ⟨-, -, -, h⟩ | ⟨-, h⟩
      · exact .inr (.inr ⟨cause, h⟩)
      · exact .inr (.inl h)
      · rw [h]
        exact ih (col + 1)

theorem not_overruns_singleton {start : Int64} : ¬Overruns nrow rows [start] := by
  rintro ⟨before, a, b, after, he, -⟩
  have hlen := congrArg List.length he
  simp only [List.length_append, List.length_cons, List.length_nil] at hlen
  omega

theorem overruns_cons {start stop : Int64} {offsets : List Int64} :
    Overruns nrow rows (start :: stop :: offsets) ↔
      (start ≤ stop ∧ rows.length < stop.toNatClampNeg ∧
        InOrder nrow (rows.drop start.toNatClampNeg)) ∨
      ColumnFits nrow rows start stop ∧ Overruns nrow rows (stop :: offsets) := by
  constructor
  · rintro ⟨_ | ⟨c, before⟩, a, b, after, he, hfit, hover⟩
    · simp only [List.nil_append, List.cons.injEq] at he
      obtain ⟨rfl, rfl, rfl⟩ := he
      exact .inl hover
    · obtain ⟨rfl, he'⟩ := List.cons.inj he
      refine .inr ⟨?_, before, a, b, after, he', hfit.tail, hover⟩
      rcases before with _ | ⟨d, before⟩ <;>
      · obtain ⟨rfl, -⟩ := List.cons.inj he'
        exact (List.isChain_cons_cons.1 hfit).1
  · rintro (hover | ⟨hfit, before, a, b, after, he, hchain, hover⟩)
    · exact ⟨[], start, stop, offsets, rfl, List.isChain_singleton _, hover⟩
    · refine ⟨start :: before, a, b, after, by rw [he, List.cons_append], ?_, hover⟩
      rcases before with _ | ⟨d, before⟩ <;>
      · obtain ⟨rfl, -⟩ := List.cons.inj he
        exact List.isChain_cons_cons.2 ⟨hfit, hchain⟩

theorem checkColumns_fault_iff {col : Nat} {start : Int64} {offsets : List Int64} :
    checkColumns nrow rows col (start :: offsets) = .fault .outOfRange ↔
      Overruns nrow rows (start :: offsets) := by
  induction offsets generalizing col start with
  | nil => exact iff_of_false (by rintro ⟨⟩) not_overruns_singleton
  | cons stop offsets ih =>
    rw [overruns_cons]
    rcases checkColumns_cons nrow rows col start stop offsets with
      ⟨hbad, cause, h⟩ | ⟨hle, hin, hlen, h⟩ | ⟨hfit, h⟩
    · rw [h]
      refine iff_of_false (by rintro ⟨⟩) fun hc => hbad ?_
      rcases hc with ⟨hle, hlen, hin⟩ | ⟨hfit, -⟩
      · exact ⟨hle, by rwa [between_of_length_le start hlen.le]⟩
      · exact ⟨hfit.le, hfit.inOrder⟩
    · rw [between_of_length_le start hlen.le] at hin
      exact iff_of_true h (.inl ⟨hle, hlen, hin⟩)
    · rw [h, ih]
      refine ⟨fun hc => .inr ⟨hfit, hc⟩, fun hc => ?_⟩
      rcases hc with ⟨-, hlen, -⟩ | ⟨-, hc⟩
      · exact absurd hfit.stop_le (Nat.not_le.2 hlen)
      · exact hc

end Checks

section OfColumns

variable {nrow ncol : Int64} {offsets rows : List Int64}

/-- The checks that come before the columns. -/
theorem framed_iff (hoffsets : offsets.length < 2 ^ 63) (hrows : rows.length < 2 ^ 63) :
    Framed { nrow, ncol, offsets, rows } ↔
      (0 ≤ nrow ∧ 0 ≤ ncol) ∧ Int64.ofNat offsets.length = ncol + 1 ∧
        offsets.head?.getD 0 = 0 ∧ offsets.getLast?.getD 0 = Int64.ofNat rows.length := by
  have hlast : ∀ o : Int64, o.toInt = (rows.length : Int) ↔ o = Int64.ofNat rows.length := by
    intro o
    rw [← Int64.toInt_ofNat_of_lt hrows, Int64.toInt_inj]
  constructor
  · intro h
    obtain ⟨o, ho, hnnz⟩ := Option.map_eq_some_iff.1 h.getLast?_offsets
    refine ⟨⟨h.nrow_nonneg, h.ncol_nonneg⟩, ?_, ?_, ?_⟩
    · exact (ofNat_eq_add_one_iff h.ncol_nonneg hoffsets).2 h.length_offsets
    · rw [h.head?_offsets, Option.getD_some]
    · rw [ho, Option.getD_some]
      exact (hlast o).1 hnnz
  · rintro ⟨⟨hnrow, hncol⟩, hcount, hfirst, hend⟩
    have hlen := (ofNat_eq_add_one_iff hncol hoffsets).1 hcount
    have hne : offsets ≠ [] := by
      rintro rfl
      simp at hlen
    rw [List.head?_eq_some_head hne, Option.getD_some] at hfirst
    rw [List.getLast?_eq_some_getLast hne, Option.getD_some] at hend
    exact ⟨hnrow, hncol, hlen, by rw [List.head?_eq_some_head hne, hfirst],
      by rw [List.getLast?_eq_some_getLast hne, Option.map_some, (hlast _).2 hend]; rfl⟩

theorem ofColumns_of_framed (hoffsets : offsets.length < 2 ^ 63) (hrows : rows.length < 2 ^ 63)
    (h : Framed { nrow, ncol, offsets, rows }) :
    ofColumns nrow ncol offsets rows =
      (checkColumns nrow rows 0 offsets).map fun _ => { nrow, ncol, offsets, rows } := by
  obtain ⟨⟨hnrow, hncol⟩, hcount, hfirst, hlast⟩ := (framed_iff hoffsets hrows).1 h
  simp only [ofColumns, Int64.not_lt.2 hnrow, Int64.not_lt.2 hncol, decide_false, Bool.or_self,
    Bool.false_eq_true, hcount, hfirst, hlast, ne_eq, not_true_eq_false, if_false]
  rfl

theorem ofColumns_of_not_framed (hoffsets : offsets.length < 2 ^ 63) (hrows : rows.length < 2 ^ 63)
    (h : ¬Framed { nrow, ncol, offsets, rows }) :
    ∃ cause, ofColumns nrow ncol offsets rows = .inconsistent cause := by
  rw [framed_iff hoffsets hrows] at h
  simp only [ofColumns, inconsistent_bind]
  split_ifs with hsize hcount hfirst hlast
  · exact ⟨_, rfl⟩
  · exact ⟨_, rfl⟩
  · exact ⟨_, rfl⟩
  · exact ⟨_, rfl⟩
  · simp only [Bool.or_eq_true, decide_eq_true_eq, not_or, Int64.not_lt] at hsize
    exact absurd ⟨hsize, not_not.1 hcount, not_not.1 hfirst, not_not.1 hlast⟩ h

/-- Columns make a pattern exactly if they are those of a well-formed one. -/
theorem ofColumns_ok_iff (hoffsets : offsets.length < 2 ^ 63) (hrows : rows.length < 2 ^ 63) :
    ofColumns nrow ncol offsets rows = .ok p ↔
      p = { nrow, ncol, offsets, rows } ∧ p.WellFormed := by
  by_cases hf : Framed { nrow, ncol, offsets, rows }
  · rw [ofColumns_of_framed hoffsets hrows hf]
    constructor
    · intro h
      cases hcheck : checkColumns nrow rows 0 offsets with
      | error e => rw [hcheck] at h; cases h
      | ok u =>
        rw [hcheck] at h
        obtain rfl := Except.ok.inj h
        exact ⟨rfl, hf.wellFormed_iff.2 (checkColumns_ok_iff.1 hcheck)⟩
    · rintro ⟨rfl, h⟩
      rw [checkColumns_ok_iff.2 (hf.wellFormed_iff.1 h)]
      rfl
  · obtain ⟨cause, h⟩ := ofColumns_of_not_framed hoffsets hrows hf
    rw [h]
    refine iff_of_false (by rintro ⟨⟩) ?_
    rintro ⟨rfl, hw⟩
    exact hf hw.toFramed

theorem ofColumns_fault_iff (hoffsets : offsets.length < 2 ^ 63) (hrows : rows.length < 2 ^ 63) :
    ofColumns nrow ncol offsets rows = .fault .outOfRange ↔
      Framed { nrow, ncol, offsets, rows } ∧ Overruns nrow rows offsets := by
  by_cases hf : Framed { nrow, ncol, offsets, rows }
  · have hmap : ∀ r : Result Unit, r.map (fun _ => ({ nrow, ncol, offsets, rows } : Pattern)) =
        Result.fault .outOfRange ↔ r = .fault .outOfRange := by
      rintro (e | u)
      · exact ⟨fun h => congrArg Except.error (Except.error.inj h),
          fun h => congrArg Except.error (Except.error.inj h)⟩
      · exact iff_of_false (by rintro ⟨⟩) (by rintro ⟨⟩)
    rw [ofColumns_of_framed hoffsets hrows hf, hmap]
    obtain ⟨start, tail, rfl⟩ : ∃ start tail, offsets = start :: tail :=
      List.exists_cons_of_length_eq_add_one hf.length_offsets
    rw [checkColumns_fault_iff]
    exact ⟨fun h => ⟨hf, h⟩, And.right⟩
  · obtain ⟨cause, h⟩ := ofColumns_of_not_framed hoffsets hrows hf
    rw [h]
    exact iff_of_false (by rintro ⟨⟩) fun hc => hf hc.1

theorem ofColumns_cases (nrow ncol : Int64) (hoffsets : offsets.length < 2 ^ 63)
    (hrows : rows.length < 2 ^ 63) :
    (∃ p, ofColumns nrow ncol offsets rows = .ok p) ∨
      ofColumns nrow ncol offsets rows = .fault .outOfRange ∨
      ∃ cause, ofColumns nrow ncol offsets rows = .inconsistent cause := by
  by_cases hf : Framed { nrow, ncol, offsets, rows }
  · rw [ofColumns_of_framed hoffsets hrows hf]
    rcases checkColumns_cases nrow rows 0 offsets with h | h | ⟨cause, h⟩
    · exact .inl ⟨_, by rw [h]; rfl⟩
    · exact .inr (.inl (by rw [h]; rfl))
    · exact .inr (.inr ⟨cause, by rw [h]; rfl⟩)
  · exact .inr (.inr (ofColumns_of_not_framed hoffsets hrows hf))

end OfColumns

end Pattern

end Tangent
