import Mathlib
import Tangent.CodeModule.Source
import Tangent.Proofs.Bounds

/-!
# Scalars behind the work vector

The slots of a routine are local variables, or they stand behind the work vector, in one vector with
it. `Machine.joined` turns a memory for the first layout into one for the second, and mirrors it:
what a run reads or writes in the work vector is at the same place of the joined one
(`mirrors_joined`). So whatever a run in the first layout does, one in the second does on the joined
memory.

The other way round, the second run could go on where the first one has left its work vector, and
find a slot there. It does not if the places are known to be inside, and that is what the checks of
the ranges and the tables of the patterns are for.
-/

namespace Tangent

open Exec
open CodeModule (Layout Options workSize layoutOf)

variable {K : Type} {f : Routine K}

/-- The memory with the slots behind the work vector. -/
def Machine.joined (m : Machine K) : Machine K :=
  { m with slots := [], work := m.work ++ m.slots }

/-- The slots behind the work vector are at places that are machine integers. -/
structure Routine.SlotsFit (f : Routine K) : Prop where
  work_nonneg : 0 ≤ f.work
  stop_lt : f.work.toInt + f.scalars.toInt < 2 ^ 63

open Machine (Parted)

/-! ## Places -/

section Places

variable {α : Type} {xs ys zs : List α} {i : Int} {v : α}

theorem elementAt?_append_of_some (h : elementAt? xs i = some v) :
    elementAt? (xs ++ ys) i = some v := by
  unfold elementAt? at h ⊢
  split_ifs at h ⊢ with h0
  rw [List.getElem?_append_left (List.getElem?_eq_some_iff.1 h).1, h]

theorem elementAt?_append_right (h0 : 0 ≤ i) :
    elementAt? (xs ++ ys) (xs.length + i) = elementAt? ys i := by
  rw [elementAt?, if_pos (by omega), elementAt?, if_pos h0, List.getElem?_append_right (by omega)]
  congr 1
  omega

theorem replaceAt?_append_of_some (h : replaceAt? xs i v = some zs) :
    replaceAt? (xs ++ ys) i v = some (zs ++ ys) := by
  unfold replaceAt? at h ⊢
  split_ifs at h with hi
  obtain rfl := Option.some.inj h
  rw [if_pos ⟨hi.1, by rw [List.length_append]; omega⟩, List.set_append_left _ _ (by omega)]

theorem replaceAt?_append_right (h0 : 0 ≤ i) :
    replaceAt? (xs ++ ys) (xs.length + i) v = (replaceAt? ys i v).map (xs ++ ·) := by
  unfold replaceAt?
  rw [List.length_append]
  split_ifs
  · rw [Option.map_some, List.set_append_right _ _ (by omega)]
    congr 3
    omega
  · omega
  · omega
  · rfl

end Places

/-! ## The joined memory -/

/-- The place of a slot behind the work vector. -/
theorem place_of_slot (hf : f.SlotsFit) {i : Int64} (hi : 0 ≤ i ∧ i < f.scalars) {m : Machine K}
    (hm : Parted f m) : 0 ≤ i.toInt ∧ (f.work + i).toInt = m.work.length + i.toInt := by
  have hwork := Int64.toInt_eq_toNatClampNeg hf.work_nonneg
  have hstop := hf.stop_lt
  have h0 := Int64.le_iff_toInt_le.1 hi.1
  have hlt := Int64.lt_iff_toInt_lt.1 hi.2
  rw [Int64.toInt_zero] at h0
  rw [hm.work, ← hwork, Int64.toInt_add, Int.bmod_eq_of_le (by omega) (by omega)]
  exact ⟨h0, rfl⟩

theorem mirrors_joined (hf : f.SlotsFit) : Mirrors f (.inWork f.work) Machine.joined where
  readSlot := by
    intro m m' i v hm hi h
    obtain ⟨hv, rfl⟩ := read_eq_some h
    obtain ⟨h0, hplace⟩ := place_of_slot hf hi hm
    refine Option.map_eq_some_iff.2 ⟨v, ?_, rfl⟩
    rw [hplace]
    exact (elementAt?_append_right h0).trans hv
  writeSlot := by
    intro m m' i v hm hi h
    rw [writeSlot] at h
    obtain ⟨hslot, rfl⟩ := write_eq_some h
    obtain ⟨h0, hplace⟩ := place_of_slot hf hi hm
    refine Option.map_eq_some_iff.2 ⟨_, ?_, rfl⟩
    rw [hplace]
    exact (replaceAt?_append_right h0).trans (by rw [replaceAt?_eq h0 hslot.2, Option.map_some])
  readWork := by
    intro m m' i v h
    obtain ⟨hv, rfl⟩ := read_eq_some h
    exact Option.map_eq_some_iff.2 ⟨v, elementAt?_append_of_some hv, rfl⟩
  writeWork := by
    intro m m' i v h
    obtain ⟨hi, rfl⟩ := write_eq_some h
    exact Option.map_eq_some_iff.2
      ⟨_, replaceAt?_append_of_some (replaceAt?_eq hi.1 hi.2 v), rfl⟩
  iwork _ := rfl
  setIWork _ _ := rfl
  results _ := rfl
  setResults _ _ := rfl

/-! ## Routines -/

namespace Routine

/-- Keeping the scalars in the work vector changes nothing. With the slots behind the work vector,
in one vector of the size that the routine then asks for, an accepted routine whose ranges, that of
the slots among them, end at machine integers does what it does with local variables: whatever the
patterns and the arguments are, a run with local variables that stays in its memory leads to the
same results, the same work vector and the same slots. If the patterns are well formed and have
every place when they pass for dense, the other run also stops where this one does, and no run with
arguments and vectors of the declared sizes stops. -/
theorem scalarsInWork_agrees {f : Routine Float} {o o' : Options} (ho : o.scalarsInWork = false)
    (ho' : o'.scalarsInWork = true) (hf : f.validate = .ok ()) (hwork : 0 ≤ f.work)
    (hscalars : 0 ≤ f.scalars) (hsize : f.work.toInt + f.scalars.toInt < 2 ^ 63)
    (hends : ∀ instr ∈ f.body, ∀ r ∈ instr.workRanges ++ instr.iworkRanges, r.stop < 2 ^ 63)
    {call : Call Float} {m : Machine Float} (hm : m.Parted f) :
    (m.work.length = (workSize o f).toInt ∧ m.joined.work.length = (workSize o' f).toInt) ∧
      (∀ m', f.exec (layoutOf o f) call m = some ((), m') →
        f.exec (layoutOf o' f) call m.joined = some ((), m'.joined) ∧ m'.Parted f) ∧
      ((∀ instr ∈ f.body, ∀ sp ∈ instr.operands,
          sp.pattern.WellFormed ∧ sp.pattern.DenseIsFull) →
        f.exec (layoutOf o' f) call m.joined =
            (f.exec (layoutOf o f) call m).map (fun run => (run.1, run.2.joined)) ∧
          (Shaped call.args f.inputs → m.SizedFor f →
            ∃ m', f.exec (layoutOf o f) call m = some ((), m'))) := by
  have hlocals : layoutOf o f = .locals := by simp [layoutOf, ho]
  have hinWork : layoutOf o' f = .inWork f.work := by simp [layoutOf, ho']
  have hfit : f.SlotsFit := ⟨hwork, hsize⟩
  rw [hlocals, hinWork]
  refine ⟨?_, fun m' hrun => ?_, fun hoperands => ?_⟩
  · have hw := Int64.toInt_eq_toNatClampNeg hwork
    have hs := Int64.toInt_eq_toNatClampNeg hscalars
    simp only [workSize, ho, ho', Bool.false_eq_true, if_true, if_false, Machine.joined,
      List.length_append, hm.work, hm.slots, Int64.toInt_add]
    rw [Int.bmod_eq_of_le (by omega) (by omega)]
    omega
  · have hfollows := follows_exec call hf (mirrors_joined hfit) False.elim hends False.elim
    obtain ⟨hrun', hm'⟩ := hfollows.of_some m () m' ⟨hm, False.elim⟩ hrun
    exact ⟨hrun', hm'.parted⟩
  · refine ⟨?_, fun hargs hsized => ?_⟩
    · have hfollows := follows_exec call hf (mirrors_joined hfit) False.elim hends
        fun (_ : True) instr hi sp hsp =>
          have ⟨hwell, hfull⟩ := hoperands instr hi sp hsp
          ⟨hwell, hwell.presents_compress hfull⟩
      rcases hrun : f.exec .locals call m with _ | ⟨⟨⟩, m'⟩
      · exact (hfollows.of_none trivial m ⟨hm, False.elim⟩ hrun).2
      · exact (hfollows.of_some m () m' ⟨hm, False.elim⟩ hrun).1
    · obtain ⟨m', hrun, -⟩ := exists_exec hf hargs hends hoperands hsized
      exact ⟨m', hrun⟩

/-- The product of a triangular matrix with its transposed one, with its scalar in place 12 of the
work vector. -/
theorem scalarsInWork_agrees_gram : gram.validate = .ok () ∧
    ∃ m', gram.exec (layoutOf {} gram) gramCall gramMachine = some ((), m') ∧
      gram.exec (layoutOf { scalarsInWork := true } gram) gramCall gramMachine.joined =
        some ((), m'.joined) ∧
      gramMachine.joined.work.length = (workSize { scalarsInWork := true } gram).toInt := by
  have hvalid : gram.validate = .ok () := by cbv
  have htables : ∀ instr ∈ gram.body, ∀ sp ∈ instr.operands,
      sp.pattern.WellFormed ∧ sp.pattern.DenseIsFull := by decide +kernel
  obtain ⟨⟨-, hlength⟩, hsame, hruns⟩ := @scalarsInWork_agrees gram {} { scalarsInWork := true }
    rfl rfl hvalid (by decide) (by decide) (by decide +kernel) (by decide +kernel) gramCall
    gramMachine ⟨rfl, rfl⟩
  obtain ⟨m', hrun⟩ := (hruns htables).2 (shaped_singleton rfl)
    ⟨rfl, rfl, rfl, shaped_singleton rfl⟩
  exact ⟨hvalid, m', hrun, (hsame m' hrun).1, hlength⟩

end Routine

end Tangent
