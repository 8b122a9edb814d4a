import Mathlib
import Tangent.Proofs.TwoRuns

/-!
# Accepted routines stay in their memory

A memory is its own image, so that a run follows itself, and it runs to its end if everything is
there (`Follows.exists_run`). For this, the tables have to lead to the nonzeros of the patterns.

They do not if the product of the sizes of a pattern wraps around to the number of its nonzeros. The
pattern then passes for dense, and the loops over its short table go on behind its last nonzero. The
routine `probe` has a matrix of this pattern at the very end of its work vector, and so it leaves
the vector (`probe_eq_none`), although it is accepted. Hence routines stay in their memory exactly
if only patterns with every place pass for dense (`Routine.exec_stays_inside_iff`).
-/

namespace Tangent

open Exec
open Machine (Fits)

variable {K : Type} {f : Routine K}

theorem mirrors_id : Mirrors f .locals id where
  readSlot _ _ h := h
  writeSlot _ _ h := h
  readWork h := h
  writeWork h := h
  iwork _ := rfl
  setIWork _ _ := rfl
  results _ := rfl
  setResults _ _ := rfl

/-! ## Runs that stop -/

namespace Exec

variable {α β : Type} {P : Machine K → Prop} {m : Machine K}

theorem bind_eq_none {a : Exec K α} {b : α → Exec K β}
    (h : ∀ v m', a m = some (v, m') → b v m' = none) : (a >>= b) m = none :=
  Option.bind_eq_none_iff.2 fun r hr => h r.1 r.2 hr

/-- A loop does not get past a turn that stops. -/
theorem foldlM_range_eq_none {step : β → Nat → Exec K β} {n i : Nat} (hi : i < n)
    (hkeep : ∀ b j, Follows id False False P (step b j) (step b j) fun _ => P)
    (hnone : ∀ b m, P m → step b i m = none) (hm : P m) (init : β) :
    (List.range n).foldlM step init m = none := by
  induction n with
  | zero => exact absurd hi (Nat.not_lt_zero i)
  | succ n ih =>
    rw [List.range_succ, List.foldlM_append]
    refine bind_eq_none fun b m₁ hrun => ?_
    rcases Nat.lt_succ_iff_lt_or_eq.1 hi with hlt | rfl
    · rw [ih hlt] at hrun
      cases hrun
    · have hkeeps := Follows.foldlM_range (I := fun _ => P) (n := i) (fun b j _ => hkeep b j) init
      rw [List.foldlM_cons]
      refine bind_eq_none fun b' m₂ hturn => ?_
      rw [hnone b m₁ (hkeeps.of_some m b m₁ hm hrun).2] at hturn
      cases hturn

theorem loop_eq_none {step : β → Int → Exec K β} {start stop i : Int} (hi : start ≤ i)
    (hlt : i < stop) (hkeep : ∀ b j, Follows id False False P (step b j) (step b j) fun _ => P)
    (hnone : ∀ b m, P m → step b i m = none) (hm : P m) (init : β) :
    loop start stop init step m = none := by
  refine foldlM_range_eq_none (i := (i - start).toNat) (by omega)
    (fun b j => hkeep b (start + j)) (fun b m hm => ?_) hm init
  rw [Int.toNat_of_nonneg (by omega), add_sub_cancel]
  exact hnone b m hm

variable [Scalar K] {p : Pattern} {a x y : Int}

theorem mirrored_bilinearTerm {ta : List Int64} (c : Int) (r : K) (k : Int) :
    Mirrored id False False f (bilinearTerm a ta x y c r k) := by
  have hread (i : Int) : Mirrored id False False f (readWork i) :=
    mirrors_id.follows_readWork steady_fits False.elim
  exact .given_bind (fun hin => hin.elim) fun i _ => (hread _).bind fun _ =>
    (hread _).bind fun _ => (hread _).bind fun _ => .pure _

theorem bilinearTerm_eq_none {ta : List Int64} {c k : Int} (hend : m.work.length ≤ a + k) (r : K) :
    bilinearTerm a ta x y c r k m = none := by
  refine bind_eq_none fun i m₁ h₁ => bind_eq_none fun v m₂ h₂ => bind_eq_none fun w m₃ h₃ => ?_
  obtain ⟨_, -, he⟩ := Option.map_eq_some_iff.1 h₁
  obtain ⟨-, rfl⟩ := Prod.mk.inj he
  obtain ⟨-, rfl⟩ := read_eq_some h₂
  obtain ⟨hw, -⟩ := read_eq_some h₃
  unfold elementAt? at hw
  split_ifs at hw with h0
  have hlt := (List.getElem?_eq_some_iff.1 hw).1
  omega

/-- The loops over the short table of a pattern go on behind its last nonzero if it has fewer
nonzeros than places. -/
theorem bilinear_eq_none (hp : p.WellFormed) (hlt : p.nnz < p.columns * p.nrow.toNatClampNeg)
    (hm : Fits False f m) (hend : f.work.toNatClampNeg ≤ a + p.nnz) :
    bilinear a [p.nrow, p.ncol, 1] x y m = none := by
  have hnrow := Int64.toInt_eq_toNatClampNeg hp.nrow_nonneg
  have hncol : p.ncol.toInt = p.columns := Int64.toInt_eq_toNatClampNeg hp.ncol_nonneg
  have hpos : 0 < p.nrow.toNatClampNeg := Nat.pos_of_mul_pos_left (Nat.zero_lt_of_lt hlt)
  -- The number `p.nnz` belongs to the column `p.nnz / p.nrow` of the short table.
  have hcolumn : p.nnz / p.nrow.toNatClampNeg < p.columns :=
    Nat.div_lt_of_lt_mul (by rwa [Nat.mul_comm])
  have hstart := Nat.div_mul_le_self p.nnz p.nrow.toNatClampNeg
  have hstop := Nat.lt_mul_div_succ p.nnz hpos
  refine bind_eq_none fun n m₁ h₁ => ?_
  obtain ⟨rfl, rfl⟩ := Prod.mk.inj (Option.some.inj h₁)
  refine loop_eq_none (i := (p.nnz / p.nrow.toNatClampNeg : Nat)) (Int.natCast_nonneg _)
    (by omega) (fun r c => Follows.overColumn (f := f) (x := a) (p := p) False.elim False.elim
      fun r k _ => mirrored_bilinearTerm c r k) (fun r m₁ hm₁ => ?_) hm _
  refine bind_eq_none fun start m₂ h₂ => bind_eq_none fun stop m₃ h₃ => ?_
  obtain ⟨rfl, rfl⟩ := Prod.mk.inj (Option.some.inj h₂)
  obtain ⟨rfl, rfl⟩ := Prod.mk.inj (Option.some.inj h₃)
  refine loop_eq_none (i := p.nnz) ?_ ?_ (fun r k => mirrored_bilinearTerm _ r k)
    (fun r m₄ hm₄ => bilinearTerm_eq_none (by rw [hm₄.parted.work]; exact hend) r) hm₁ r
  · rw [hnrow]
    exact_mod_cast hstart
  · rw [hnrow, Int.mul_comm]
    exact_mod_cast hstop

end Exec

/-! ## Patterns that pass for dense -/

section Probe

variable {sp : SharedPattern}

/-- The least size of a work vector for a matrix of the pattern, one of its columns and one of its
rows. -/
def Pattern.extent (p : Pattern) : Nat :=
  max p.nnz (max p.nrow.toNatClampNeg p.columns)

theorem Pattern.WellFormed.extent_lt {p : Pattern} (h : p.WellFormed) : p.extent < 2 ^ 63 :=
  max_lt h.nnz_lt (max_lt (Int64.toNatClampNeg_lt _) (Int64.toNatClampNeg_lt _))

/-- A bilinear form of a matrix at the end of the work vector. -/
def probe (K : Type) (sp : SharedPattern) : Routine K where
  name := "probe"
  inputs := []
  outputs := []
  scalars := 1
  work := Int64.ofNat sp.pattern.extent
  iwork := 0
  body := [.bilinear 0 (Int64.ofNat (sp.pattern.extent - sp.pattern.nnz)) (some sp) 0 0]

theorem probe_work (h : sp.pattern.WellFormed) :
    (probe K sp).work.toInt = sp.pattern.extent :=
  Int64.toInt_ofNat_of_lt h.extent_lt

/-- Every range of the probe ends in its work vector. -/
theorem probe_ranges (h : sp.pattern.WellFormed) : ∀ instr ∈ (probe K sp).body,
    ∀ r ∈ instr.workRanges, 0 ≤ r.size ∧ 0 ≤ r.offset ∧ r.stop ≤ (probe K sp).work.toInt := by
  have hnnz := Int64.toInt_ofNat_of_lt h.nnz_lt
  have hoffset := Int64.toInt_ofNat_of_lt
    (Nat.sub_lt_of_lt (b := sp.pattern.nnz) h.extent_lt)
  have hnrow := Int64.toInt_eq_toNatClampNeg h.nrow_nonneg
  have hncol := Int64.toInt_eq_toNatClampNeg h.ncol_nonneg
  have hle : sp.pattern.nnz ≤ sp.pattern.extent ∧
      sp.pattern.nrow.toNatClampNeg ≤ sp.pattern.extent ∧
      sp.pattern.ncol.toNatClampNeg ≤ sp.pattern.extent := by
    simp [Pattern.extent, Pattern.columns]
  rw [probe_work h]
  simp only [probe, forall_eq, Instr.workRanges, List.mem_cons, List.not_mem_nil, or_false,
    forall_eq_or_imp, WorkRange.stop, Int64.le_iff_toInt_le, Int64.toInt_zero, hnnz, hoffset]
  omega

theorem probe_validate (h : sp.pattern.WellFormed) : (probe K sp).validate = .ok () := by
  have hname : isIdentifier "probe" := by decide
  refine Routine.validate_ok_iff.2 ⟨hname, by simp [probe], fun instr hi => ?_⟩
  have hranges := probe_ranges h instr hi
  obtain rfl := List.mem_singleton.1 hi
  refine ⟨by simp [Instr.slots, probe], fun r hr => ?_, by simp [Instr.iworkRanges], rfl⟩
  obtain ⟨hsize, hoffset, hstop⟩ := hranges r hr
  exact WorkRange.passes_of_stop_le hsize hoffset hstop

theorem probe_stop_lt (h : sp.pattern.WellFormed) : ∀ instr ∈ (probe K sp).body,
    ∀ r ∈ instr.workRanges ++ instr.iworkRanges, r.stop < 2 ^ 63 := by
  intro instr hi r hr
  have hranges := probe_ranges h instr hi
  obtain rfl := List.mem_singleton.1 hi
  simp only [Instr.iworkRanges, List.append_nil] at hr
  exact (hranges r hr).2.2.trans_lt (Int64.toInt_lt _)

theorem shaped_nil : Shaped ([] : List (Option (List K))) [] :=
  ⟨rfl, fun _ _ h => by simp at h⟩

variable [Scalar K]

def probeCall : Call K where
  args := []
  external _ _ := Scalar.zero
  ofPlace _ := Scalar.zero

def probeMachine (sp : SharedPattern) : Machine K where
  slots := [Scalar.zero]
  work := List.replicate sp.pattern.extent Scalar.zero
  iwork := []
  results := []

theorem probe_sizedFor (h : sp.pattern.WellFormed) :
    (probeMachine sp : Machine K).SizedFor (probe K sp) where
  slots := rfl
  work := by
    rw [probeMachine, List.length_replicate, Int64.toNatClampNeg, probe_work h, Int.toNat_natCast]
  iwork := rfl
  results := shaped_nil

/-- The probe leaves its work vector if its pattern passes for dense and has places that are no
nonzeros. -/
theorem probe_eq_none (h : sp.pattern.WellFormed) (hfull : ¬sp.pattern.DenseIsFull) :
    (probe K sp).exec .locals probeCall (probeMachine sp) = none := by
  obtain ⟨hdense, hnumel, hne⟩ : sp.pattern.isDense ∧ 0 < sp.pattern.numel ∧
      sp.pattern.nnz ≠ sp.pattern.columns * sp.pattern.nrow.toNatClampNeg := by
    simpa only [Pattern.DenseIsFull, Classical.not_imp] using hfull
  have hshort : sp.pattern.compress = [sp.pattern.nrow, sp.pattern.ncol, 1] :=
    Pattern.compress_of_isDense (by simp [hdense, hnumel])
  have hle := h.offset_add_le (c := 0) sp.pattern.columns (by omega)
  rw [Nat.zero_add, h.offset_columns, h.offset_zero, Nat.zero_add] at hle
  have hsized := probe_sizedFor (K := K) h
  have hend : ((probe K sp).work.toNatClampNeg : Int) ≤
      (Int64.ofNat (sp.pattern.extent - sp.pattern.nnz)).toInt + sp.pattern.nnz := by
    have hnnz : sp.pattern.nnz ≤ sp.pattern.extent := le_max_left _ _
    rw [← hsized.work, probeMachine, List.length_replicate,
      Int64.toInt_ofNat_of_lt (Nat.sub_lt_of_lt h.extent_lt)]
    omega
  have hstops := bilinear_eq_none (x := 0) (y := 0) h (lt_of_le_of_ne hle hne)
    (m := probeMachine sp) ⟨⟨hsized.slots, hsized.work⟩, False.elim⟩ hend
  refine bind_eq_none fun _ m₁ h₁ => absurd h₁ ?_
  rw [Instr.exec, Instr.table?, Option.map_some, hshort]
  refine ne_of_eq_of_ne (bind_eq_none fun table m₂ h₂ => bind_eq_none fun v m₃ h₃ => ?_)
    (Option.some_ne_none _).symm
  obtain ⟨rfl, rfl⟩ := Prod.mk.inj (Option.some.inj h₂)
  exact absurd (h₃.symm.trans hstops) (Option.some_ne_none _)

end Probe

/-! ## Routines -/

namespace Routine

theorem exists_exec [Scalar K] {call : Call K} {m : Machine K} (hf : f.validate = .ok ())
    (hargs : Shaped call.args f.inputs)
    (hends : ∀ instr ∈ f.body, ∀ r ∈ instr.workRanges ++ instr.iworkRanges, r.stop < 2 ^ 63)
    (hoperands : ∀ instr ∈ f.body, ∀ sp ∈ instr.operands,
      sp.pattern.WellFormed ∧ sp.pattern.DenseIsFull) (hm : m.SizedFor f) :
    ∃ m', f.exec .locals call m = some ((), m') ∧ m'.SizedFor f := by
  have hfollows := follows_exec call hf mirrors_id (fun _ : True => hargs) hends
    fun (_ : True) instr hi sp hsp =>
      have ⟨hwell, hfull⟩ := hoperands instr hi sp hsp
      ⟨hwell, hwell.presents_compress hfull⟩
  obtain ⟨⟨⟩, m', hrun, hm'⟩ := hfollows.exists_run ⟨⟨hm.slots, hm.work⟩, fun _ => hm⟩
  exact ⟨m', hrun, hm'.sizedFor trivial⟩

/-- Accepted routines stay in their memory exactly if only patterns with every place pass for dense.
The patterns are well formed, and no range that a routine names ends beyond the machine integers. If
only patterns with every place pass for dense, every accepted routine runs to its end with arguments
of the right shape, in a memory with just the slots and the work vectors that it declares. With any
other pattern, there is an accepted one that does not. -/
theorem exec_stays_inside_iff [Scalar K] {patterns : Pattern → Prop}
    (hpatterns : ∀ p, patterns p → p.WellFormed) :
    (∀ (f : Routine K) (call : Call K) (m : Machine K), f.validate = .ok () →
        (∀ instr ∈ f.body, ∀ sp ∈ instr.operands, patterns sp.pattern) →
        (∀ instr ∈ f.body, ∀ r ∈ instr.workRanges ++ instr.iworkRanges, r.stop < 2 ^ 63) →
        Shaped call.args f.inputs → m.SizedFor f →
        ∃ m', f.exec .locals call m = some ((), m') ∧ m'.SizedFor f) ↔
      ∀ p, patterns p → p.DenseIsFull := by
  refine ⟨fun hruns p hp => ?_, fun hfull f call m hf hoperands hends hargs hm => ?_⟩
  · by_contra hfull
    let sp : SharedPattern := ⟨0, p⟩
    have hwell : sp.pattern.WellFormed := hpatterns p hp
    obtain ⟨m', hrun, -⟩ := hruns (probe K sp) probeCall (probeMachine sp) (probe_validate hwell)
      (by simpa [probe, Instr.operands] using hp) (probe_stop_lt hwell) shaped_nil
      (probe_sizedFor hwell)
    rw [probe_eq_none hwell hfull] at hrun
    cases hrun
  · exact exists_exec hf hargs hends (fun instr hi sp hsp =>
      have hp := hoperands instr hi sp hsp
      ⟨hpatterns _ hp, hfull _ hp⟩) hm

section Gram

def lower : SharedPattern := ⟨0, { nrow := 2, ncol := 2, offsets := [0, 2, 3], rows := [0, 1, 1] }⟩

def upper : SharedPattern := ⟨1, { nrow := 2, ncol := 2, offsets := [0, 1, 3], rows := [0, 0, 1] }⟩

def square : SharedPattern :=
  ⟨2, { nrow := 2, ncol := 2, offsets := [0, 2, 4], rows := [0, 1, 0, 1] }⟩

/-- The product of a triangular matrix with its transposed one. -/
def gram : Routine Float where
  name := "gram"
  inputs := [some lower]
  outputs := [some square]
  scalars := 1
  work := 12
  iwork := 2
  body := [.input 0 0 0, .scatter 0 0, .input 0 0 1, .scatter 1 0, .input 0 0 2, .scatter 2 0,
    .transpose 0 (some lower) 3 (some upper) 0, .fill 6 4 0,
    .multiply 0 (some lower) 3 (some upper) 6 (some square) 10 false,
    .gather 0 9, .output 0 3 0]

def gramCall : Call Float where
  args := [some [1, 2, 3]]
  external _ _ := 0
  ofPlace := Float.ofInt

def gramMachine : Machine Float where
  slots := [0]
  work := List.replicate 12 0
  iwork := [0, 0]
  results := [some [0, 0, 0, 0]]

/-- The routine runs, since its patterns have few places. -/
theorem exec_stays_inside_iff_gram : gram.validate = .ok () ∧
    ∃ m', gram.exec .locals gramCall gramMachine = some ((), m') ∧ m'.SizedFor gram := by
  have hvalid : gram.validate = .ok () := by cbv
  have hpatterns : ∀ p ∈ [lower.pattern, upper.pattern, square.pattern],
      p.WellFormed ∧ p.EntriesFit := by decide +kernel
  refine ⟨hvalid, (exec_stays_inside_iff fun p hp => (hpatterns p hp).1).2
    (fun p hp => (hpatterns p hp).1.denseIsFull (hpatterns p hp).2) gram gramCall gramMachine
    hvalid (by decide +kernel) (by decide +kernel) (shaped_singleton rfl)
    ⟨rfl, rfl, rfl, shaped_singleton rfl⟩⟩

end Gram

/-- Three columns, so long that the number of places wraps around to two. -/
def vast : SharedPattern where
  key := 0
  pattern := { nrow := 6148914691236517206, ncol := 3, offsets := [0, 1, 2, 2], rows := [0, 0] }

/-- The pattern has two nonzeros and passes for dense. So the probe is accepted, and leaves its work
vector. -/
theorem exec_leaves_work : vast.pattern.WellFormed ∧ vast.pattern.isDense ∧
    vast.pattern.compress = [6148914691236517206, 3, 1] ∧
    (probe Float vast).body = [.bilinear 0 6148914691236517204 (some vast) 0 0] ∧
    (probe Float vast).work = 6148914691236517206 ∧
    (probe Float vast).validate = .ok () ∧
    (∀ instr ∈ (probe Float vast).body,
      ∀ r ∈ instr.workRanges ++ instr.iworkRanges, r.stop < 2 ^ 63) ∧
    (probeMachine vast : Machine Float).SizedFor (probe Float vast) ∧
    (probe Float vast).exec .locals probeCall (probeMachine vast) = none := by
  have hwell : vast.pattern.WellFormed := by decide
  have hfull : ¬vast.pattern.DenseIsFull := by decide +kernel
  exact ⟨hwell, by decide, by decide, rfl, by decide, probe_validate hwell, probe_stop_lt hwell,
    probe_sizedFor hwell, probe_eq_none hwell hfull⟩

end Routine

end Tangent
