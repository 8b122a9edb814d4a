import Mathlib
import Tangent.Pattern.Build
import Tangent.Proofs.Loops

/-!
# Counting and adding up

The offsets of a pattern are made in two passes. The first one counts the nonzeros of each column
(`countColumns_ok`), the second one adds the numbers up in place: after some steps, the numbers on
the left are offsets and the others are still numbers of nonzeros (`Summed`). In the end, a column
starts after all nonzeros of earlier columns (`offsetsOf_eq`).
-/

namespace Tangent

/-- A machine integer from zero on, below another one, is a number. -/
theorem exists_ofNat {r n : Int64} (hr : 0 ≤ r) (hlt : r < n) :
    ∃ k < n.toNatClampNeg, r = Int64.ofNat k := by
  refine ⟨r.toNatClampNeg, ?_, (Int64.ofNat_toNatClampNeg r hr).symm⟩
  have hrInt := Int64.toInt_eq_toNatClampNeg hr
  have hnInt := Int64.toInt_eq_toNatClampNeg (Int64.le_trans hr (Int64.le_of_lt hlt))
  rw [Int64.lt_iff_toInt_lt] at hlt
  omega

namespace Buffer

variable {α : Type} {a : Array α} {i : Nat}

theorem has_ofNat (hi : i < a.size) (hlt : i < 2 ^ 63) : has a (Int64.ofNat i) := by
  simp [has, Int64.zero_le_ofNat_of_lt hlt, Int64.toNatClampNeg_ofNat_of_lt hlt, hi]

theorem read_ofNat {x : α} (hx : a[i]? = some x) (hlt : i < 2 ^ 63) :
    read a (Int64.ofNat i) = .ok x := by
  have hi := (Array.getElem?_eq_some_iff.1 hx).1
  rw [read, has_ofNat hi hlt, Int64.toNatClampNeg_ofNat_of_lt hlt, hx]

theorem write_ofNat (hi : i < a.size) (hlt : i < 2 ^ 63) (x : α) :
    write a (Int64.ofNat i) x = .ok (a.setIfInBounds i x) := by
  rw [write, if_pos (has_ofNat hi hlt), Int64.toNatClampNeg_ofNat_of_lt hlt]

end Buffer

namespace Pattern

/-! ## Room -/

theorem toInt_capacity : capacity.toInt = 35184372088832 := by decide

/-- There is room for one more than a machine integer that is not negative. -/
theorem fits_add_one_iff {n : Int64} (hn : 0 ≤ n) :
    fits (n + 1) ↔ n.toInt < capacity.toInt := by
  have hn' := Int64.le_iff_toInt_le.1 hn
  have hlt := Int64.toInt_lt n
  have hone : (1 : Int64).toInt = 1 := rfl
  have hzero : (0 : Int64).toInt = 0 := rfl
  simp only [fits, Bool.and_eq_true, decide_eq_true_eq, Int64.le_iff_toInt_le, Int64.toInt_add,
    hone, hzero, toInt_capacity, Int.bmod_def] at *
  split_ifs <;> omega

theorem toNatClampNeg_add_one {n : Int64} (hn : 0 ≤ n) (hlt : n.toInt + 1 < 2 ^ 63) :
    (n + 1).toNatClampNeg = n.toNatClampNeg + 1 := by
  have hpos := Int64.le_iff_toInt_le.1 hn
  have hone : (1 : Int64).toInt = 1 := rfl
  have hzero : (0 : Int64).toInt = 0 := rfl
  simp only [Int64.toNatClampNeg, Int64.toInt_add, hone, hzero, Int.bmod_def] at *
  split_ifs <;> omega

/-! ## Starts of columns -/

/-- Where each of `n` columns starts and the last ends: after the nonzeros of earlier columns. -/
def startsOf (n : Nat) (cols : List Int64) : List Int64 :=
  (List.range (n + 1)).map fun c => Int64.ofNat (cols.countP (· < Int64.ofNat c))

theorem length_startsOf (n : Nat) (cols : List Int64) : (startsOf n cols).length = n + 1 := by
  simp [startsOf]

theorem getElem?_startsOf {n c : Nat} (hc : c ≤ n) (cols : List Int64) :
    (startsOf n cols)[c]? = some (Int64.ofNat (cols.countP (· < Int64.ofNat c))) := by
  rw [startsOf, List.getElem?_map, List.getElem?_range (by omega), Option.map_some]

/-! ## Counting -/

variable {n : Nat} {cols : List Int64}

/-- The nonzeros that are counted at place `i`: those of the column before. -/
def countAt (cols : List Int64) (i : Nat) : Int64 :=
  Int64.ofNat (cols.countP (· + 1 = Int64.ofNat i))

/-- All columns that were passed are counted. -/
structure Counted (n : Nat) (cols : List Int64) (counts : Array Int64) : Prop where
  size : counts.size = n + 1
  get : ∀ i ≤ n, counts[i]? = some (countAt cols i)

theorem countAt_concat (cols : List Int64) (c : Int64) (i : Nat) :
    countAt (cols ++ [c]) i = countAt cols i + if c + 1 = Int64.ofNat i then 1 else 0 := by
  unfold countAt
  rw [List.countP_append, Int64.ofNat_add]
  split_ifs with h <;> simp [h]

theorem Counted.countUp {counts : Array Int64} (h : Counted n cols counts) (hn : n < 2 ^ 63)
    {k : Nat} (hk : k < n) :
    ∃ counts', Buffer.countUp counts (Int64.ofNat k + 1) = .ok counts' ∧
      Counted n (cols ++ [Int64.ofNat k]) counts' := by
  have hc : Int64.ofNat k + 1 = Int64.ofNat (k + 1) := (Int64.ofNat_add k 1).symm
  have hget := h.get (k + 1) hk
  refine ⟨counts.setIfInBounds (k + 1) (countAt cols (k + 1) + 1), ?_, ?_⟩
  · rw [Buffer.countUp, hc, Buffer.read_ofNat hget (by omega)]
    exact Buffer.write_ofNat (by rw [h.size]; omega) (by omega) _
  · refine ⟨by rw [Array.size_setIfInBounds, h.size], fun i hi => ?_⟩
    rw [countAt_concat, hc]
    by_cases hik : i = k + 1
    · rw [hik, Array.getElem?_setIfInBounds_self_of_lt (by rw [h.size]; omega), if_pos rfl]
    · have hne : Int64.ofNat (k + 1) ≠ Int64.ofNat i := fun heq => by
        have := congrArg Int64.toNatClampNeg heq
        rw [Int64.toNatClampNeg_ofNat_of_lt (by omega),
          Int64.toNatClampNeg_ofNat_of_lt (by omega)] at this
        omega
      rw [Array.getElem?_setIfInBounds_ne (Ne.symm hik), h.get i hi, if_neg hne, Int64.add_zero]

theorem countColumns_ok {ncol : Int64} (hsucc : (ncol + 1).toNatClampNeg = ncol.toNatClampNeg + 1)
    (hcols : ∀ c ∈ cols, 0 ≤ c ∧ c < ncol) :
    ∃ counts, countColumns ncol cols = .ok counts ∧ Counted ncol.toNatClampNeg cols counts := by
  have hn := Int64.toNatClampNeg_lt ncol
  refine Ends.exists_ok (Ends.foldlM ⟨?_, fun i hi => ?_⟩ fun done c rest counts hsplit h => ?_)
  · rw [Array.size_replicate, hsucc]
  · rw [Array.getElem?_replicate, if_pos (by omega)]
    rfl
  · obtain ⟨h0, hlt⟩ := hcols c (by simp [hsplit])
    obtain ⟨k, hk, rfl⟩ := exists_ofNat h0 hlt
    exact .of_exists (h.countUp hn hk)

/-! ## Adding up -/

/-- The numbers up to place `k` are offsets, the others still count nonzeros. -/
structure Summed (n : Nat) (cols : List Int64) (k : Nat) (offsets : Array Int64) : Prop where
  size : offsets.size = n + 1
  done : ∀ i ≤ k, offsets[i]? = some (Int64.ofNat (cols.countP (· < Int64.ofNat i)))
  ahead : ∀ i ≤ n, k < i → offsets[i]? = some (countAt cols i)

theorem countAt_succ (cols : List Int64) (k : Nat) :
    countAt cols (k + 1) = Int64.ofNat (cols.count (Int64.ofNat k)) := by
  have hsucc : ∀ c : Int64, c + 1 = Int64.ofNat (k + 1) ↔ c = Int64.ofNat k := fun c => by
    rw [Int64.ofNat_add]
    exact Int64.add_left_inj 1
  simp only [countAt, hsucc]
  rfl

/-- The nonzeros before the end of a column are those before its start and its own. -/
theorem countP_lt_succ {k : Nat} (hk : k + 1 < 2 ^ 63) (cols : List Int64) :
    cols.countP (· < Int64.ofNat (k + 1)) =
      cols.countP (· < Int64.ofNat k) + cols.count (Int64.ofNat k) := by
  have hcol : ∀ c : Int64, (c < Int64.ofNat (k + 1) ↔ c < Int64.ofNat k ∨ c = Int64.ofNat k) ∧
      ¬(c < Int64.ofNat k ∧ c = Int64.ofNat k) := by
    intro c
    simp only [Int64.lt_iff_toInt_lt, ← Int64.toInt_inj, Int64.toInt_ofNat_of_lt hk,
      Int64.toInt_ofNat_of_lt (show k < 2 ^ 63 by omega)]
    omega
  induction cols with
  | nil => rfl
  | cons c cols ih =>
    have := (hcol c).2
    simp only [List.countP_cons, List.count_cons, ih, (hcol c).1, decide_eq_true_eq, beq_iff_eq]
    split_ifs <;> first | omega | tauto

theorem Counted.summed {counts : Array Int64} (h : Counted n cols counts)
    (hcols : ∀ c ∈ cols, 0 ≤ c ∧ c + 1 ≠ 0) : Summed n cols 0 counts := by
  refine ⟨h.size, fun i hi => ?_, fun i hi _ => h.get i hi⟩
  obtain rfl : i = 0 := by omega
  have hnone : cols.countP (· < Int64.ofNat 0) = 0 :=
    List.countP_eq_zero.2 fun c hc => by simpa using (hcols c hc).1
  have hnone' : cols.countP (· + 1 = Int64.ofNat 0) = 0 :=
    List.countP_eq_zero.2 fun c hc => by simpa using (hcols c hc).2
  rw [h.get 0 (Nat.zero_le n), countAt, hnone, hnone']

theorem Summed.endColumn {k : Nat} {offsets : Array Int64} (h : Summed n cols k offsets)
    (hn : n + 1 < 2 ^ 63) (hk : k < n) :
    ∃ offsets', endColumn offsets k = .ok offsets' ∧ Summed n cols (k + 1) offsets' := by
  have hsucc : Int64.ofNat k + 1 = Int64.ofNat (k + 1) := (Int64.ofNat_add k 1).symm
  have hin : k + 1 < offsets.size := by
    rw [h.size]
    omega
  refine ⟨offsets.setIfInBounds (k + 1)
    (countAt cols (k + 1) + Int64.ofNat (cols.countP (· < Int64.ofNat k))), ?_, ?_⟩
  · rw [Pattern.endColumn, hsucc, Buffer.read_ofNat (h.done k (Nat.le_refl k)) (by omega),
      Buffer.read_ofNat (h.ahead (k + 1) hk (Nat.lt_succ_self k)) (by omega)]
    exact Buffer.write_ofNat hin (by omega) _
  · refine ⟨by rw [Array.size_setIfInBounds, h.size], fun i hi => ?_, fun i hi hki => ?_⟩
    · by_cases hik : i = k + 1
      · rw [hik, Array.getElem?_setIfInBounds_self_of_lt hin, countP_lt_succ (by omega),
          countAt_succ, Int64.ofNat_add (cols.countP _), Int64.add_comm]
      · rw [Array.getElem?_setIfInBounds_ne (Ne.symm hik), h.done i (by omega)]
    · rw [Array.getElem?_setIfInBounds_ne (by omega), h.ahead i hi (by omega)]

/-- The two passes make the offsets. -/
theorem offsetsOf_eq {ncol : Int64} (hncol : 0 ≤ ncol) (hfits : fits (ncol + 1))
    (hcols : ∀ c ∈ cols, 0 ≤ c ∧ c < ncol) :
    offsetsOf ncol cols = .ok (startsOf ncol.toNatClampNeg cols) := by
  have hroom := (fits_add_one_iff hncol).1 hfits
  have hcast := Int64.cast_toNatClampNeg ncol hncol
  rw [toInt_capacity] at hroom
  have hn : ncol.toNatClampNeg + 1 < 2 ^ 63 := by omega
  obtain ⟨counts, hcount, hcounted⟩ :=
    countColumns_ok (toNatClampNeg_add_one hncol (by omega)) hcols
  have hstart : Summed ncol.toNatClampNeg cols 0 counts := hcounted.summed fun c hc => by
    obtain ⟨h0, hlt⟩ := hcols c hc
    obtain ⟨k, hk, rfl⟩ := exists_ofNat h0 hlt
    refine ⟨h0, fun hzero => ?_⟩
    have := congrArg Int64.toNatClampNeg ((Int64.ofNat_add k 1).trans hzero)
    rw [Int64.toNatClampNeg_ofNat_of_lt (by omega)] at this
    cases this
  obtain ⟨offsets, hsum, hsummed⟩ := Ends.exists_ok
    (Ends.foldlM_range (f := Pattern.endColumn) (n := ncol.toNatClampNeg) hstart
      fun k offsets hk h => .of_exists (h.endColumn hn hk))
  have hlist : offsets.toList = startsOf ncol.toNatClampNeg cols := by
    refine List.ext_getElem? fun c => ?_
    rcases Nat.lt_or_ge ncol.toNatClampNeg c with hc | hc
    · rw [List.getElem?_eq_none (by rw [Array.length_toList, hsummed.size]; omega),
        List.getElem?_eq_none (by rw [length_startsOf]; omega)]
    · rw [Array.getElem?_toList, hsummed.done c hc, getElem?_startsOf hc]
  rw [offsetsOf, hcount]
  simp only [bind, Except.bind, hsum]
  exact congrArg Except.ok hlist

end Pattern

end Tangent
