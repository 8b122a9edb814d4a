import Mathlib
import Tangent.CodeModule.Source
import Tangent.Proofs.WellFormed
import Tangent.Routine.Validate
import Tangent.SparseMatrix

/-!
# The vectors of a gateway

A gateway declares one vector of reals and one of integers, and everything that its routine works on
is a `Region` of them: the nonzeros of each argument, a dense temporary for the largest input, and
the work vector of the routine. The text gives where a region starts; how many cells it has is
counted exactly.

Offsets are machine integers, and are sums of what stands before. The first region that ends beyond
the machine integers starts where it should (`forall_stop_le_iff`), so such a region is too long for
any vector. Where all regions end in time, all offsets are exact (`toInt_stop_starts`,
`toInt_work_ofRoutine`).
-/

namespace Tangent.CodeModule

open Routine (nonzeros)

/-- Cells of the vector of a gateway: where they start, and how many they are. -/
structure Region where
  start : Int64
  cells : Int

/-- Where a region ends. -/
def Region.stop (r : Region) : Int :=
  r.start.toInt + r.cells

/-- The nonzeros of each argument. -/
def argumentRegions (starts : List Int64) (patterns : List (Option SharedPattern)) : List Region :=
  starts.zipWith (fun start sp => ⟨start, nonzeros [sp]⟩) patterns

/-- The number of places of the largest input. -/
def placesOfLargest : List (Option SharedPattern) → Nat
  | [] => 0
  | sp :: rest =>
    max (sp.elim 0 fun s => s.pattern.nrow.toNatClampNeg * s.pattern.ncol.toNatClampNeg)
      (placesOfLargest rest)

/-- The cells of the work vector of a routine, with the scalars if they are kept there. -/
def workCells (o : Options) (f : Routine Float) : Int :=
  f.work.toInt + if o.scalarsInWork then f.scalars.toInt else 0

/-- What a gateway keeps in its vector of reals, in this order: the inputs, the outputs, the
temporary and the work vector of the routine. -/
def layout (o : Options) (f : Routine Float) : List Region :=
  let frame := Frame.ofRoutine o f
  argumentRegions frame.inputs f.inputs ++ (argumentRegions frame.outputs f.outputs ++
    [⟨frame.temporary, placesOfLargest f.inputs⟩, ⟨frame.work, (workSize o f).toInt⟩])

/-- Everything in the vector of reals. The work vector is there as long as the text says that it is,
and as long as the routine has it. -/
def regions (o : Options) (f : Routine Float) : List Region :=
  layout o f ++ [⟨(Frame.ofRoutine o f).work, workCells o f⟩]

/-- The sizes of the work vectors that the text reports are no negative numbers, and the vectors of
the gateways have the lengths that are needed. -/
structure Adequate (o : Options) (f : Routine Float) : Prop where
  iwork_nonneg : 0 ≤ f.iwork
  work_nonneg : 0 ≤ workSize o f
  regions_fit : ∀ r ∈ regions o f, r.stop ≤ (Frame.ofRoutine o f).size.toInt
  iwork_fits : f.iwork ≤ (Frame.ofRoutine o f).iwork

/-! ## Machine integers -/

theorem toInt_add_of_lt {a b : Int64} (ha : 0 ≤ a.toInt) (hb : 0 ≤ b.toInt)
    (h : a.toInt + b.toInt < 2 ^ 63) : (a + b).toInt = a.toInt + b.toInt := by
  rw [Int64.toInt_add, Int.bmod_eq_of_le (by omega) (by omega)]

theorem toInt_max (a b : Int64) : (max a b).toInt = max a.toInt b.toInt := by
  change (if a ≤ b then b else a).toInt = max a.toInt b.toInt
  rw [max_def]
  simp only [Int64.le_iff_toInt_le]
  split_ifs <;> rfl

/-! ## Arguments -/

theorem nonzeros_cons (sp : Option SharedPattern) (rest : List (Option SharedPattern)) :
    nonzeros (sp :: rest) = nonzeros [sp] + nonzeros rest := by
  simp [nonzeros]

/-- The patterns that are there are well formed. -/
def WellFormedAll (patterns : List (Option SharedPattern)) : Prop :=
  ∀ sp : SharedPattern, some sp ∈ patterns → sp.pattern.WellFormed

theorem toInt_offset_add {offset : Int64} (hoffset : 0 ≤ offset.toInt) {n : Nat}
    (h : offset.toInt + n < 2 ^ 63) : (offset + Int64.ofNat n).toInt = offset.toInt + n := by
  have hn : (Int64.ofNat n).toInt = n := Int64.toInt_ofNat_of_lt (by omega)
  rw [toInt_add_of_lt hoffset (by omega) (by omega), hn]

/-- As long as they end among the machine integers, arguments end where they should. -/
theorem toInt_stop_starts : ∀ (patterns : List (Option SharedPattern)) (offset : Int64),
    0 ≤ offset.toInt → offset.toInt + nonzeros patterns < 2 ^ 63 →
      (Frame.starts offset patterns).2.toInt = offset.toInt + nonzeros patterns
  | [], offset, _, _ => by simp [Frame.starts, nonzeros]
  | sp :: rest, offset, h0, h => by
    rw [nonzeros_cons sp rest] at h ⊢
    have hoffset := toInt_offset_add h0 (n := nonzeros [sp]) (by omega)
    have hrest := toInt_stop_starts rest (offset + Int64.ofNat (nonzeros [sp])) (by omega)
      (by omega)
    rw [Frame.starts, hrest, hoffset]
    omega

/-- Arguments end in time if the last one does, however the offsets wrap around. -/
theorem forall_stop_le_iff {limit : Int} (hlimit : limit < 2 ^ 63) :
    ∀ (patterns : List (Option SharedPattern)) (offset : Int64), 0 ≤ offset.toInt →
      offset.toInt ≤ limit →
      ((∀ r ∈ argumentRegions (Frame.starts offset patterns).1 patterns, r.stop ≤ limit) ↔
        offset.toInt + nonzeros patterns ≤ limit)
  | [], offset, _, h => by
    simpa [argumentRegions, Frame.starts, nonzeros] using h
  | sp :: rest, offset, h0, h => by
    have hregions : argumentRegions (Frame.starts offset (sp :: rest)).1 (sp :: rest) =
        ⟨offset, nonzeros [sp]⟩ ::
          argumentRegions (Frame.starts (offset + Int64.ofNat (nonzeros [sp])) rest).1 rest := rfl
    rw [hregions, List.forall_mem_cons, nonzeros_cons sp rest]
    by_cases hfirst : offset.toInt + nonzeros [sp] ≤ limit
    · have hoffset := toInt_offset_add h0 (n := nonzeros [sp]) (by omega)
      rw [forall_stop_le_iff hlimit rest _ (by omega) (by omega), hoffset]
      simp only [Region.stop]
      omega
    · simp only [Region.stop]
      omega

/-! ## The temporary -/

theorem toInt_numel {p : Pattern} (hwf : p.WellFormed)
    (h : p.nrow.toNatClampNeg * p.ncol.toNatClampNeg < 2 ^ 63) :
    p.numel.toInt = p.nrow.toNatClampNeg * p.ncol.toNatClampNeg := by
  have hnrow : (p.nrow.toNatClampNeg : Int) = p.nrow.toInt :=
    Int.toNat_of_nonneg (Int64.le_iff_toInt_le.1 hwf.nrow_nonneg)
  have hncol : (p.ncol.toNatClampNeg : Int) = p.ncol.toInt :=
    Int.toNat_of_nonneg (Int64.le_iff_toInt_le.1 hwf.ncol_nonneg)
  have hproduct : (p.nrow.toNatClampNeg * p.ncol.toNatClampNeg : Int) < 2 ^ 63 := by
    exact_mod_cast h
  rw [hnrow, hncol] at hproduct
  have hnonneg : 0 ≤ p.nrow.toInt * p.ncol.toInt := by
    rw [← hnrow, ← hncol]
    positivity
  rw [Pattern.numel, Int64.toInt_mul, hnrow, hncol, Int.bmod_eq_of_le (by omega) (by omega)]

theorem toInt_foldl_max : ∀ (patterns : List (Option SharedPattern)) (n : Int64),
    WellFormedAll patterns → placesOfLargest patterns < 2 ^ 63 → 0 ≤ n.toInt →
      (patterns.foldl (fun n sp => max n (sp.elim 0 (·.pattern.numel))) n).toInt =
        max n.toInt (placesOfLargest patterns)
  | [], n, _, _, h0 => by
    simpa [placesOfLargest] using h0
  | sp :: rest, n, hwf, h, h0 => by
    rw [placesOfLargest] at h
    have hplaces : (sp.elim 0 (·.pattern.numel) : Int64).toInt = (sp.elim 0 fun s =>
        s.pattern.nrow.toNatClampNeg * s.pattern.ncol.toNatClampNeg : Nat) := by
      cases sp with
      | none => rfl
      | some sp =>
        have hsp := toInt_numel (hwf sp List.mem_cons_self) (lt_of_le_of_lt (le_max_left _ _) h)
        exact_mod_cast hsp
    have hwf' : WellFormedAll rest := fun sp' hsp' => hwf sp' (List.mem_cons_of_mem _ hsp')
    have hmax := toInt_max n (sp.elim 0 (·.pattern.numel))
    rw [List.foldl_cons, toInt_foldl_max rest _ hwf' (lt_of_le_of_lt (le_max_right _ _) h)
      (by omega), hmax, hplaces, placesOfLargest, Nat.cast_max, max_assoc]

/-! ## The whole vector -/

section Frame

variable {o : Options} {f : Routine Float}

/-- The cells of the arguments, and of the temporary. -/
def argumentCells (f : Routine Float) : Nat :=
  nonzeros f.inputs + nonzeros f.outputs + placesOfLargest f.inputs

theorem toInt_temporary_ofRoutine (h : nonzeros f.inputs + nonzeros f.outputs < 2 ^ 63) :
    (Frame.ofRoutine o f).temporary.toInt = nonzeros f.inputs + nonzeros f.outputs := by
  have hzero : (0 : Int64).toInt = 0 := rfl
  have hin := toInt_stop_starts f.inputs 0 (by omega) (by omega)
  have hout := toInt_stop_starts f.outputs (Frame.starts 0 f.inputs).2 (by omega) (by omega)
  change (Frame.starts (Frame.starts 0 f.inputs).2 f.outputs).2.toInt = _
  omega

theorem toInt_work_ofRoutine (hwf : WellFormedAll f.inputs) (h : argumentCells f < 2 ^ 63) :
    (Frame.ofRoutine o f).work.toInt = argumentCells f := by
  unfold argumentCells at *
  have hzero : (0 : Int64).toInt = 0 := rfl
  have htemporary := toInt_temporary_ofRoutine (o := o) (f := f) (by omega)
  have hlargest : (Frame.largest f.inputs).toInt = placesOfLargest f.inputs := by
    rw [Frame.largest, toInt_foldl_max f.inputs 0 hwf (by omega) (by omega), hzero]
    omega
  change ((Frame.ofRoutine o f).temporary + Frame.largest f.inputs).toInt = _
  rw [toInt_add_of_lt (by omega) (by omega) (by omega)]
  omega

theorem toInt_size_ofRoutine (hwf : WellFormedAll f.inputs) (hwork : 0 ≤ workSize o f)
    (h : argumentCells f + (workSize o f).toInt < 2 ^ 63) :
    (Frame.ofRoutine o f).size.toInt = max 1 (argumentCells f + (workSize o f).toInt) := by
  have hnonneg : 0 ≤ (workSize o f).toInt := Int64.le_iff_toInt_le.1 hwork
  have hcells := toInt_work_ofRoutine (o := o) hwf (by omega)
  change (max 1 ((Frame.ofRoutine o f).work + workSize o f)).toInt = _
  rw [toInt_max, toInt_add_of_lt (by omega) hnonneg (by omega), hcells]
  rfl

/-- A routine has no more cells than its work vector is said to have, if that is a size at all. -/
theorem workCells_le (h : 0 ≤ workSize o f) : workCells o f ≤ (workSize o f).toInt := by
  have hnonneg : 0 ≤ (workSize o f).toInt := Int64.le_iff_toInt_le.1 h
  have hwork := Int64.toInt_lt f.work
  have hscalars := Int64.toInt_lt f.scalars
  unfold workSize workCells at *
  split_ifs at * with hs
  · rw [Int64.toInt_add, Int.bmod_def] at *
    split_ifs at * <;> omega
  · omega

theorem forall_mem_regions_iff {limit : Int} : (∀ r ∈ regions o f, r.stop ≤ limit) ↔
    (∀ r ∈ argumentRegions (Frame.starts 0 f.inputs).1 f.inputs, r.stop ≤ limit) ∧
      (∀ r ∈ argumentRegions (Frame.starts (Frame.starts 0 f.inputs).2 f.outputs).1 f.outputs,
        r.stop ≤ limit) ∧
      (Frame.ofRoutine o f).temporary.toInt + placesOfLargest f.inputs ≤ limit ∧
      (Frame.ofRoutine o f).work.toInt + (workSize o f).toInt ≤ limit ∧
      (Frame.ofRoutine o f).work.toInt + workCells o f ≤ limit := by
  change (∀ r ∈ argumentRegions (Frame.starts 0 f.inputs).1 f.inputs ++
    (argumentRegions (Frame.starts (Frame.starts 0 f.inputs).2 f.outputs).1 f.outputs ++ _) ++ _,
      r.stop ≤ limit) ↔ _
  rw [List.append_assoc, List.append_assoc, List.forall_mem_append, List.forall_mem_append]
  simp [Region.stop]

/-- All regions end in time if the work vector does. -/
theorem regions_fit_iff (hwf : WellFormedAll f.inputs) (hwork : 0 ≤ workSize o f) {limit : Int}
    (h0 : 0 ≤ limit) (hlimit : limit < 2 ^ 63) :
    (∀ r ∈ regions o f, r.stop ≤ limit) ↔ argumentCells f + (workSize o f).toInt ≤ limit := by
  have hzero : (0 : Int64).toInt = 0 := rfl
  have hnonneg : 0 ≤ (workSize o f).toInt := Int64.le_iff_toInt_le.1 hwork
  have hcells := workCells_le hwork
  have hinputs := forall_stop_le_iff hlimit f.inputs 0 (by omega) (by omega)
  rw [forall_mem_regions_iff, hinputs]
  constructor
  · rintro ⟨hin, hout, htemporary, hsize, -⟩
    have hstop := toInt_stop_starts f.inputs 0 (by omega) (by omega)
    rw [forall_stop_le_iff hlimit f.outputs _ (by omega) (by omega)] at hout
    rw [toInt_temporary_ofRoutine (by omega)] at htemporary
    have hplaces : argumentCells f < 2 ^ 63 := by unfold argumentCells; omega
    rwa [toInt_work_ofRoutine hwf hplaces] at hsize
  · intro h
    have hplaces : argumentCells f < 2 ^ 63 := by omega
    rw [toInt_work_ofRoutine hwf hplaces]
    unfold argumentCells at *
    have hstop := toInt_stop_starts f.inputs 0 (by omega) (by omega)
    rw [forall_stop_le_iff hlimit f.outputs _ (by omega) (by omega),
      toInt_temporary_ofRoutine (by omega)]
    omega

end Frame

/-- The text of a routine reports sizes of its work vectors, and its gateways declare vectors of the
given lengths. -/
structure Stated (o : Options) (code : Section) (iwork work iworkLength workLength : Int64) :
    Prop where
  reported_iwork : "  if (sz_iw) *sz_iw = " ++ toString iwork ++ ";" ∈ routineLines o code
  reported_work : "  if (sz_w) *sz_w = " ++ toString work ++ ";" ∈ routineLines o code
  mex_iwork : "  int iw[" ++ toString iworkLength ++ "];" ∈ mexLines o code
  mex_work : "  real_t w[" ++ toString workLength ++ "];" ∈ mexLines o code
  main_iwork : "  int iw[" ++ toString iworkLength ++ "];" ∈ mainLines o code
  main_work : "  real_t w[" ++ toString workLength ++ "];" ∈ mainLines o code

theorem stated (o : Options) (code : Section) :
    let frame := Frame.ofRoutine o code.routine
    Stated o code code.routine.iwork (workSize o code.routine) frame.iwork frame.size where
  reported_iwork := by simp [routineLines, sizeLines]
  reported_work := by simp [routineLines, sizeLines]
  mex_iwork := by simp [mexLines, vectorLines]
  mex_work := by simp [mexLines, vectorLines]
  main_iwork := by simp [mainLines, vectorLines]
  main_work := by simp [mainLines, vectorLines]

theorem one_le_size (o : Options) (f : Routine Float) : 1 ≤ (Frame.ofRoutine o f).size.toInt := by
  change 1 ≤ (max 1 ((Frame.ofRoutine o f).work + workSize o f)).toInt
  rw [toInt_max]
  exact le_max_left _ _

theorem adequate_iff (o : Options) (f : Routine Float) (hwf : WellFormedAll f.inputs) :
    Adequate o f ↔ 0 ≤ f.iwork ∧ 0 ≤ workSize o f ∧
      argumentCells f + (workSize o f).toInt < 2 ^ 63 := by
  have hlt := Int64.toInt_lt (Frame.ofRoutine o f).size
  have hpos := one_le_size o f
  constructor
  · intro h
    have hfit := (regions_fit_iff hwf h.work_nonneg (by omega) hlt).1 h.regions_fit
    exact ⟨h.iwork_nonneg, h.work_nonneg, by omega⟩
  · rintro ⟨hiwork, hwork, hcells⟩
    refine ⟨hiwork, hwork, (regions_fit_iff hwf hwork (by omega) hlt).2 ?_, ?_⟩
    · rw [toInt_size_ofRoutine hwf hwork hcells]
      exact le_max_right _ _
    · change f.iwork ≤ max 1 f.iwork
      rw [Int64.le_iff_toInt_le, toInt_max]
      exact le_max_right _ _

/-- The sizes that the text reports for a routine are no negative numbers, and the vectors that its
gateways declare are long enough, exactly if the routine asks for work vectors of sizes that are not
negative and all that goes into the vector of reals ends among the machine integers. -/
theorem lengths_adequate_iff (o : Options) (code : Section)
    (hwf : WellFormedAll code.routine.inputs) :
    let f := code.routine
    let frame := Frame.ofRoutine o f
    Stated o code f.iwork (workSize o f) frame.iwork frame.size ∧
      (Adequate o f ↔ 0 ≤ f.iwork ∧ 0 ≤ workSize o f ∧
        argumentCells f + (workSize o f).toInt < 2 ^ 63) :=
  ⟨stated o code, adequate_iff o code.routine hwf⟩

/-- A routine with a column and a scalar as inputs, whose scalars are kept in the work vector. -/
theorem lengths_adequate_iff_column :
    let column : SharedPattern := ⟨1, 2, 1, [0, 2], [0, 1]⟩
    let f : Routine Float :=
      ⟨"f", [some column, some .scalar], [some column], 3, 4, 5, [.scatter 3 2]⟩
    WellFormedAll f.inputs ∧ f.validate = .ok () ∧ Adequate { scalarsInWork := true } f := by
  intro column f
  have hwf : WellFormedAll f.inputs := by
    intro sp hsp
    simp only [f, List.mem_cons, Option.some.injEq, List.not_mem_nil, or_false] at hsp
    rcases hsp with rfl | rfl
    · decide
    · decide
  refine ⟨hwf, by cbv, ?_⟩
  refine ((lengths_adequate_iff { scalarsInWork := true } ⟨f, [], [0, 1], [0]⟩ hwf).2).2 ?_
  exact ⟨by decide, by decide, by decide +kernel⟩

/-- Routines are accepted that ask for fewer cells than none, or for all that there can be: then a
negative size is reported, or the temporary ends behind the end of the vector. -/
theorem lengths_not_adequate :
    let f (work : Int64) : Routine Float := ⟨"f", [some .scalar], [], 0, work, 0, []⟩
    let below : Int64 := -5
    let all : Int64 := 9223372036854775807
    (∀ work, WellFormedAll (f work).inputs) ∧ (∀ work ∈ [below, all], (f work).validate = .ok () ∧
      (Frame.ofRoutine {} (f work)).size = 1 ∧ (⟨1, 1⟩ : Region) ∈ regions {} (f work) ∧
      ¬Adequate {} (f work)) ∧ workSize {} (f below) = below := by
  intro f below all
  have hwf : ∀ work, WellFormedAll (f work).inputs := by
    intro work sp hsp
    obtain rfl : sp = .scalar := Option.some.inj (List.mem_singleton.1 hsp)
    decide
  refine ⟨hwf, fun work hwork => ?_, rfl⟩
  have hsize : (Frame.ofRoutine {} (f work)).size = 1 := by
    rcases List.mem_pair.1 hwork with rfl | rfl <;> decide
  have hregion : (⟨1, 1⟩ : Region) ∈ regions {} (f work) :=
    List.mem_append_left _ (List.mem_append_right _ (List.mem_append_right _ List.mem_cons_self))
  refine ⟨?_, hsize, hregion, fun h => ?_⟩
  · cbv
  · have hfit := h.regions_fit _ hregion
    rw [hsize] at hfit
    revert hfit
    decide

end Tangent.CodeModule
