import Mathlib
import Tangent.Proofs.Compression
import Tangent.Proofs.Machine

/-!
# The tables of patterns

A table `Presents` a pattern if it leads to the columns and to the rows of the pattern. The offsets
and the rows always do (`presents_spelled`). The short form does if every place is a nonzero, since
the columns and the rows are then where they are computed to be (`presents_short`). So the
compressed list does if only patterns with every place pass for dense (`presents_compress`). All do
whose number of places is a machine integer (`WellFormed.denseIsFull`).
-/

namespace Tangent

open Exec

namespace Pattern

variable {p : Pattern}

/-- The sizes, the offsets and the rows of a pattern. -/
def spelled (p : Pattern) : List Int64 :=
  p.nrow :: p.ncol :: (p.offsets ++ p.rows)

/-- A pattern that passes for dense, and so has a short table, has every place. -/
def DenseIsFull (p : Pattern) : Prop :=
  p.isDense → 0 < p.numel → p.nnz = p.columns * p.nrow.toNatClampNeg

instance (p : Pattern) : Decidable p.DenseIsFull :=
  inferInstanceAs (Decidable (_ → _ → _))

/-- The loops over the table go through the nonzeros of the pattern. -/
structure Presents (table : List Int64) (p : Pattern) : Prop where
  nrow? : nrow? table = some p.nrow.toInt
  ncol? : ncol? table = some p.ncol.toInt
  columnStart? : ∀ c < p.columns, columnStart? table c = some (p.offset c : Int)
  columnStop? : ∀ c < p.columns, columnStop? table c = some (p.offset (c + 1) : Int)
  row? : ∀ c < p.columns, ∀ k, p.offset c ≤ k → k < p.offset (c + 1) →
    ∀ r, p.rows[k]? = some r → row? table c k = some r.toInt

theorem number?_ofNat (table : List Int64) (i : Nat) :
    number? table (i : Int) = table[i]?.map Int64.toInt := by
  rw [number?, elementAt?_ofNat]

theorem getElem?_column {c k : Nat} (hk : p.offset c ≤ k) (hlt : k < p.offset (c + 1)) :
    (p.column c)[k - p.offset c]? = p.rows[k]? := by
  rw [column, List.getElem?_take_of_lt (by omega), List.getElem?_drop, Nat.add_sub_cancel' hk]

namespace WellFormed

theorem number?_spelled_offset (h : p.WellFormed) {c : Nat} (hc : c ≤ p.columns) :
    number? p.spelled ((2 + c : Nat) : Int) = some (p.offset c : Int) := by
  obtain ⟨o, ho⟩ := h.getElem?_offsets hc
  have hlt := (List.getElem?_eq_some_iff.1 ho).1
  rw [number?_ofNat, spelled, Nat.add_comm, List.getElem?_cons_succ, List.getElem?_cons_succ,
    List.getElem?_append_left hlt, ho, Option.map_some, h.toInt_of_getElem? ho]

/-- The first offset is zero, so the long form is not taken for the short one. -/
theorem short?_spelled (h : p.WellFormed) : short? p.spelled = some false := by
  have hzero := h.number?_spelled_offset (Nat.zero_le _)
  rw [h.offset_zero] at hzero
  rw [short?]
  exact congrArg (Option.map (· == 1)) hzero

theorem number?_spelled_row (h : p.WellFormed) {k : Nat} {r : Int64} (hr : p.rows[k]? = some r) :
    number? p.spelled ((3 + p.columns + k : Nat) : Int) = some r.toInt := by
  have hlen := h.length_offsets
  have hplace : 3 + p.columns + k = p.offsets.length + k + 1 + 1 := by omega
  rw [number?_ofNat, spelled, hplace, List.getElem?_cons_succ, List.getElem?_cons_succ,
    List.getElem?_append_right (Nat.le_add_right _ _), Nat.add_sub_cancel_left, hr, Option.map_some]

theorem presents_spelled (h : p.WellFormed) : Presents p.spelled p := by
  have hncol : p.ncol.toInt = p.columns := Int64.toInt_eq_toNatClampNeg h.ncol_nonneg
  refine ⟨rfl, rfl, fun c hc => ?_, fun c hc => ?_, fun c hc k hk hlt r hr => ?_⟩
  · rw [columnStart?, h.short?_spelled]
    exact h.number?_spelled_offset hc.le
  · have hplace : (3 + c : Int) = ((2 + (c + 1) : Nat) : Int) := by omega
    rw [columnStop?, h.short?_spelled, hplace]
    exact h.number?_spelled_offset hc
  · have hplace : (3 + p.ncol.toInt + k : Int) = ((3 + p.columns + k : Nat) : Int) := by omega
    rw [row?, h.short?_spelled]
    change number? p.spelled (3 + p.ncol.toInt + k) = some r.toInt
    rw [hplace]
    exact h.number?_spelled_row hr

theorem presents_short (h : p.WellFormed) (hnnz : p.nnz = p.columns * p.nrow.toNatClampNeg) :
    Presents [p.nrow, p.ncol, 1] p := by
  have hnrow := Int64.toInt_eq_toNatClampNeg h.nrow_nonneg
  have hshort : short? [p.nrow, p.ncol, 1] = some true := rfl
  refine ⟨rfl, rfl, fun c hc => ?_, fun c hc => ?_, fun c hc k hk hlt r hr => ?_⟩
  · rw [columnStart?, hshort, h.offset_eq_mul hnnz hc.le, Nat.cast_mul, ← hnrow]
    rfl
  · rw [columnStop?, hshort, h.offset_eq_mul hnnz hc, Nat.cast_mul, ← hnrow]
    rfl
  · have hcolumn := getElem?_column hk hlt
    rw [h.column_of_nnz_eq hnnz hc, hr, List.getElem?_map] at hcolumn
    obtain ⟨j, hj, rfl⟩ := Option.map_eq_some_iff.1 hcolumn
    obtain ⟨hjlt, rfl⟩ := List.getElem?_eq_some_iff.1 hj
    rw [List.length_range] at hjlt
    have hlt' := Int64.toNatClampNeg_lt p.nrow
    rw [row?, hshort, List.getElem_range, Int64.toInt_ofNat_of_lt (by omega), Nat.cast_sub hk,
      h.offset_eq_mul hnnz hc.le, Nat.cast_mul, ← hnrow]
    rfl

/-- Where the number of places does not wrap around, only a pattern with every place is dense. -/
theorem denseIsFull (h : p.WellFormed) (hfit : p.EntriesFit) : p.DenseIsFull :=
  fun hdense _ => (h.isDense_iff hfit).1 hdense

theorem presents_compress (h : p.WellFormed) (hdense : p.DenseIsFull) : Presents p.compress p := by
  by_cases hshort : p.isDense && 0 < p.numel
  · rw [compress_of_isDense hshort]
    simp only [Bool.and_eq_true, decide_eq_true_eq] at hshort
    exact h.presents_short (hdense hshort.1 hshort.2)
  · rw [compress_of_not_isDense hshort]
    exact h.presents_spelled

end WellFormed

end Pattern

end Tangent
