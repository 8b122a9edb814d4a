import Mathlib
import Tangent.Proofs.Gateways

/-!
# The layout of a gateway and what it reads and writes

A gateway uses the nonzeros of its arguments in three ways: through one pointer for each argument,
in one loop over all inputs or all outputs, and in one call that clears all outputs. `Move` says
what the statements of a gateway do to its vector of reals, with the text of each; the text of a
gateway is the text of its moves (`mainLines_eq`, `infix_mexLines`).

Arguments are placed one after another (`Placed`), so the loops and the pointers agree.
-/

namespace Tangent.CodeModule

open Routine (nonzeros)

variable {patterns : List (Option SharedPattern)} {α : Type}

/-! ## Placement -/

/-- Arguments stand one after another from `base` on. -/
def Placed (base : Nat) (patterns : List (Option SharedPattern)) (starts : List Int64) : Prop :=
  starts.map Int64.toInt =
    (List.range patterns.length).map fun i => ((base + nonzeros (patterns.take i) : Nat) : Int)

theorem placed_starts : ∀ (patterns : List (Option SharedPattern)) {offset : Int64} {base : Nat},
    offset.toInt = base → base + nonzeros patterns < 2 ^ 63 →
      Placed base patterns (Frame.starts offset patterns).1
  | [], _, _, _, _ => rfl
  | sp :: rest, offset, base, hoffset, h => by
    rw [nonzeros_cons] at h
    have hnext : (offset + Int64.ofNat (nonzeros [sp])).toInt = (base + nonzeros [sp] : Nat) := by
      rw [toInt_offset_add (by omega) (by omega), hoffset]
      rfl
    have hrest := placed_starts rest hnext (by omega)
    unfold Placed at hrest ⊢
    rw [Frame.starts, List.map_cons, hrest, List.length_cons, List.range_succ_eq_map, List.map_cons,
      List.map_map, hoffset]
    refine congrArg (_ :: ·) (List.map_congr_left fun i _ => ?_)
    rw [Function.comp_apply, List.take_succ_cons, nonzeros_cons sp (rest.take i), Nat.add_assoc]

theorem Placed.getElem? {base i : Nat} {starts : List Int64} (h : Placed base patterns starts)
    (hi : i < patterns.length) :
    (starts.map Int64.toInt)[i]? = some ((base + nonzeros (patterns.take i) : Nat) : Int) := by
  rw [h, List.getElem?_map, List.getElem?_range hi]
  rfl

/-- The number of a nonzero of an argument, in the order of the arguments. -/
def Numbered (patterns : List (Option SharedPattern)) (place : Nat × Nat) (n : Nat) : Prop :=
  ∃ sp, patterns[place.1]? = some sp ∧ place.2 < nonzeros [sp] ∧
    nonzeros (patterns.take place.1) + place.2 = n

theorem nonzeros_append (as bs : List (Option SharedPattern)) :
    nonzeros (as ++ bs) = nonzeros as + nonzeros bs := by
  induction as with
  | nil => exact (Nat.zero_add _).symm
  | cons sp as ih => rw [List.cons_append, nonzeros_cons, ih, nonzeros_cons sp as, Nat.add_assoc]

theorem Numbered.lt {place : Nat × Nat} {n : Nat} (h : Numbered patterns place n) :
    n < nonzeros patterns := by
  obtain ⟨sp, hsp, hk, rfl⟩ := h
  have hsplit : nonzeros patterns = nonzeros (patterns.take place.1) +
      nonzeros (patterns.drop place.1) := by
    rw [← nonzeros_append, List.take_append_drop]
  rw [List.drop_eq_getElem_cons (List.getElem?_eq_some_iff.1 hsp).1, nonzeros_cons,
    (List.getElem?_eq_some_iff.1 hsp).2] at hsplit
  omega

/-- Every number belongs to one nonzero. -/
theorem existsUnique_numbered : ∀ {patterns : List (Option SharedPattern)} {n : Nat},
    n < nonzeros patterns → ∃! place, Numbered patterns place n
  | [], _, h => (Nat.not_lt_zero _ h).elim
  | sp :: rest, n, h => by
    rw [nonzeros_cons] at h
    have hshift : ∀ i k, Numbered (sp :: rest) (i + 1, k) n ↔
        nonzeros [sp] ≤ n ∧ Numbered rest (i, k) (n - nonzeros [sp]) := by
      intro i k
      unfold Numbered
      rw [List.getElem?_cons_succ, List.take_succ_cons, nonzeros_cons sp]
      grind
    have hfirst : ∀ k, Numbered (sp :: rest) (0, k) n ↔ k = n ∧ n < nonzeros [sp] := by
      intro k
      simp only [Numbered, List.getElem?_cons_zero, Option.some.injEq, exists_eq_left',
        List.take_zero]
      have : nonzeros [] = 0 := rfl
      omega
    by_cases hn : n < nonzeros [sp]
    · refine ⟨(0, n), (hfirst n).2 ⟨rfl, hn⟩, ?_⟩
      rintro ⟨_ | i, k⟩ hplace
      · rw [((hfirst k).1 hplace).1]
      · exact absurd ((hshift i k).1 hplace).1 (by omega)
    · have hrest : n - nonzeros [sp] < nonzeros rest := by omega
      obtain ⟨⟨i, k⟩, hplace, huniq⟩ := existsUnique_numbered hrest
      refine ⟨(i + 1, k), (hshift i k).2 ⟨by omega, hplace⟩, ?_⟩
      rintro ⟨_ | i', k'⟩ hplace'
      · exact absurd ((hfirst k').1 hplace').2 hn
      · cases huniq (i', k') ((hshift i' k').1 hplace').2
        rfl

/-! ## Regions -/

/-- The cells of a region. -/
def Region.places (r : Region) : Set Int :=
  Set.Ico r.start.toInt r.stop

/-- One region ends before another one starts. -/
def Region.Before (r r' : Region) : Prop :=
  r.stop ≤ r'.start.toInt

theorem Region.Before.disjoint {r r' : Region} (h : r.Before r') : Disjoint r.places r'.places :=
  Set.disjoint_left.2 fun _ hp hp' => absurd hp.2 (not_lt.2 (h.trans hp'.1))

/-- Arguments are in order, and fill the cells from the first to the last one. -/
theorem ordered_argumentRegions : ∀ (patterns : List (Option SharedPattern)) (offset : Int64),
    0 ≤ offset.toInt → offset.toInt + nonzeros patterns < 2 ^ 63 →
      (argumentRegions (Frame.starts offset patterns).1 patterns).Pairwise Region.Before ∧
      (∀ r ∈ argumentRegions (Frame.starts offset patterns).1 patterns,
        offset.toInt ≤ r.start.toInt ∧ r.stop ≤ offset.toInt + nonzeros patterns) ∧
      ∀ p, (∃ r ∈ argumentRegions (Frame.starts offset patterns).1 patterns, p ∈ r.places) ↔
        offset.toInt ≤ p ∧ p < offset.toInt + nonzeros patterns
  | [], offset, _, _ => by
    refine ⟨.nil, List.forall_mem_nil _, fun p => ?_⟩
    have : nonzeros [] = 0 := rfl
    simp only [argumentRegions, Frame.starts, List.zipWith_nil_left, List.not_mem_nil, false_and,
      exists_false, false_iff]
    omega
  | sp :: rest, offset, h0, h => by
    have hregions : argumentRegions (Frame.starts offset (sp :: rest)).1 (sp :: rest) =
        ⟨offset, nonzeros [sp]⟩ ::
          argumentRegions (Frame.starts (offset + Int64.ofNat (nonzeros [sp])) rest).1 rest := rfl
    rw [nonzeros_cons] at h ⊢
    have hoffset := toInt_offset_add h0 (n := nonzeros [sp]) (by omega)
    obtain ⟨hpairwise, hbetween, hcover⟩ := ordered_argumentRegions rest
      (offset + Int64.ofNat (nonzeros [sp])) (by omega) (by omega)
    rw [hregions]
    refine ⟨List.pairwise_cons.2 ⟨fun r hr => ?_, hpairwise⟩,
      List.forall_mem_cons.2 ⟨?_, fun r hr => ?_⟩, fun p => ?_⟩
    · have := (hbetween r hr).1
      simp only [Region.Before, Region.stop]
      omega
    · simp only [Region.stop]
      omega
    · have := hbetween r hr
      omega
    · rw [List.exists_mem_cons_iff, hcover]
      simp only [Region.places, Set.mem_Ico, Region.stop]
      omega

section Frame

variable {o : Options} {f : Routine Float}

theorem le_placesOfLargest {sp : SharedPattern} (h : some sp ∈ patterns) :
    sp.pattern.nrow.toNatClampNeg * sp.pattern.ncol.toNatClampNeg ≤ placesOfLargest patterns := by
  induction patterns with
  | nil => cases h
  | cons sp' rest ih =>
    rw [placesOfLargest]
    rcases List.mem_cons.1 h with rfl | h
    · exact le_max_left _ _
    · exact (ih h).trans (le_max_right _ _)

theorem toInt_stop_inputs (h : argumentCells f < 2 ^ 63) :
    (Frame.starts 0 f.inputs).2.toInt = nonzeros f.inputs := by
  unfold argumentCells at h
  have hzero : (0 : Int64).toInt = 0 := rfl
  have hstop := toInt_stop_starts f.inputs 0 (by omega) (by omega)
  omega

theorem pairwise_layout (hwf : WellFormedAll f.inputs) (h : argumentCells f < 2 ^ 63) :
    (layout o f).Pairwise Region.Before := by
  have hzero : (0 : Int64).toInt = 0 := rfl
  have hstop := toInt_stop_inputs h
  have hwork := toInt_work_ofRoutine (o := o) hwf h
  unfold argumentCells at h hwork
  have htemporary := toInt_temporary_ofRoutine (o := o) (f := f) (by omega)
  obtain ⟨hinputs, hin, -⟩ := ordered_argumentRegions f.inputs 0 (by omega) (by omega)
  obtain ⟨houtputs, hout, -⟩ := ordered_argumentRegions f.outputs (Frame.starts 0 f.inputs).2
    (by omega) (by omega)
  have hlast : ∀ r ∈ ([⟨(Frame.ofRoutine o f).temporary, placesOfLargest f.inputs⟩,
      ⟨(Frame.ofRoutine o f).work, (workSize o f).toInt⟩] : List Region),
      (nonzeros f.inputs + nonzeros f.outputs : Int) ≤ r.start.toInt := by
    simp only [List.forall_mem_cons, List.not_mem_nil, IsEmpty.forall_iff, implies_true, and_true]
    omega
  refine List.pairwise_append.2 ⟨hinputs, List.pairwise_append.2 ⟨houtputs, ?_, ?_⟩, ?_⟩
  · rw [List.pairwise_pair]
    simp only [Region.Before, Region.stop]
    omega
  · intro r hr r' hr'
    have := (hout r hr).2
    have := hlast r' hr'
    unfold Region.Before
    omega
  · intro r hr r' hr'
    have := (hin r hr).2
    unfold Region.Before
    rcases List.mem_append.1 hr' with hr' | hr'
    · have := (hout r' hr').1
      omega
    · have := hlast r' hr'
      omega

end Frame

/-! ## Memory -/

/-- Write numbers one after another. -/
def poke (w : Int → α) : Int → List α → Int → α
  | _, [] => w
  | a, x :: xs => poke (Function.update w a x) (a + 1) xs

/-- Read numbers one after another. -/
def peek (w : Int → α) : Int → Nat → List α
  | _, 0 => []
  | a, n + 1 => w a :: peek w (a + 1) n

theorem poke_outside {a p : Int} {xs : List α} {w : Int → α} (h : p < a ∨ a + xs.length ≤ p) :
    poke w a xs p = w p := by
  induction xs generalizing w a with
  | nil => rfl
  | cons x xs ih =>
    rw [List.length_cons] at h
    rw [poke, ih (by omega), Function.update_of_ne (by omega)]

theorem poke_inside {a : Int} {k : Nat} {x : α} {xs : List α} {w : Int → α} (h : xs[k]? = some x) :
    poke w a xs (a + k) = x := by
  induction xs generalizing w a k with
  | nil => cases h
  | cons y xs ih =>
    rw [poke]
    cases k with
    | zero =>
      rw [poke_outside (by omega), Nat.cast_zero, add_zero, Function.update_self]
      exact Option.some.inj h
    | succ k =>
      rw [show a + ((k + 1 : Nat) : Int) = a + 1 + k by omega]
      exact ih h

theorem poke_replicate (w : Int → α) (a p : Int) (n : Nat) (x : α) :
    poke w a (List.replicate n x) p = if a ≤ p ∧ p < a + n then x else w p := by
  split
  · next h =>
    obtain ⟨k, rfl⟩ := Int.le.dest h.1
    exact poke_inside (List.getElem?_replicate_of_lt (by omega))
  · exact poke_outside (by rw [List.length_replicate]; omega)

theorem peek_add (w : Int → α) (a : Int) (m n : Nat) :
    peek w a (m + n) = peek w a m ++ peek w (a + m) n := by
  induction m generalizing a with
  | zero => simp [peek]
  | succ m ih =>
    rw [Nat.add_right_comm, peek, ih, peek, List.cons_append, Nat.cast_succ, Int.add_right_comm,
      Int.add_assoc]

/-- The pointers to arguments. -/
theorem Placed.poke {base i : Nat} {starts : List Int64} (h : Placed base patterns starts)
    (old : Int → Int) (hi : i < patterns.length) :
    poke old 0 (starts.map Int64.toInt) i = base + nonzeros (patterns.take i) := by
  have hpointer := poke_inside (w := old) (a := 0) (h.getElem? hi)
  rw [zero_add] at hpointer
  rw [hpointer, Nat.cast_add]

/-- All nonzeros in one loop are the nonzeros of each argument in turn. -/
theorem peek_arguments (w : Int → α) {pointer : Int → Int} :
    ∀ {patterns : List (Option SharedPattern)} {base : Int} (j : Nat),
      (∀ i < patterns.length, pointer ((j + i : Nat) : Int) = base + nonzeros (patterns.take i)) →
        peek w base (nonzeros patterns) =
          (patterns.zipIdx j).flatMap fun p => peek w (pointer p.2) (nonzeros [p.1])
  | [], _, _, _ => rfl
  | sp :: rest, base, j, h => by
    have hfirst : pointer j = base := by
      have h0 := h 0 (Nat.zero_lt_succ _)
      have : nonzeros [] = 0 := rfl
      rw [List.take_zero] at h0
      simpa [this] using h0
    have hrest : ∀ i < rest.length, pointer ((j + 1 + i : Nat) : Int) =
        base + nonzeros [sp] + nonzeros (rest.take i) := by
      intro i hi
      have hi := h (i + 1) (Nat.succ_lt_succ hi)
      rw [List.take_succ_cons, nonzeros_cons sp] at hi
      rw [Nat.add_right_comm, Nat.add_assoc, hi]
      omega
    rw [nonzeros_cons, peek_add, List.zipIdx_cons, List.flatMap_cons, hfirst,
      peek_arguments w (j + 1) hrest]

/-! ## Moves -/

/-- What a gateway works on. The arrays of pointers hold offsets into the vector of reals `w`. -/
structure Gateway (α : Type) where
  w : Int → α
  arg : Int → Int
  res : Int → Int
  unread : List α
  printed : List α

/-- A routine as a gateway calls it, with the pointers to its arguments and results, and to its work
vector. It gives back the vector of reals, or fails. -/
abbrev Callee (α : Type) :=
  (Int → Int) → (Int → Int) → Int → (Int → α) → Option (Int → α)

/-- What a gateway does. -/
inductive Move
  | argument (i : Nat) (start : Int64)
  | result (i : Nat) (start : Int64)
  | scan (count : Nat)
  | call (work : Int64)
  | print (start : Int64) (count : Nat)
  | clear (start : Int64) (count : Nat)

/-- Read numbers one after another into the vector; without enough of them, stop. -/
def Gateway.scan : Nat → Int → Gateway α → Option (Gateway α)
  | 0, _, g => some g
  | n + 1, a, g =>
    match g.unread with
    | [] => none
    | v :: rest => scan n (a + 1) { g with w := Function.update g.w a v, unread := rest }

namespace Move

/-- The text of a move, in a gateway for the named routine. -/
def lines (name : String) : Move → List String
  | argument i start => ["  arg[" ++ toString i ++ "] = " ++ shifted "w" start ++ ";"]
  | result i start => ["  res[" ++ toString i ++ "] = " ++ shifted "w" start ++ ";"]
  | scan count => ["  a = w;",
      "  for (j=0; j<" ++ toString count ++ "; ++j) \x7b",
      "    if (scanf(\"%lg\", &v)<=0) return 2;",
      "    *a++ = v;",
      "  \x7d"]
  | call work => ["  flag = " ++ name ++ "(arg, res, iw, " ++ shifted "w" work ++ ", 0);",
      "  if (flag) return flag;"]
  | print start count => ["  r = " ++ shifted "w" start ++ ";",
      "  for (j=0; j<" ++ toString count ++ "; ++j) PRINTF(\"%.16e \", to_double(*r++));"]
  | clear start count => ["  fill(" ++ shifted "w" start ++ ", " ++ toString count ++ ", 0);"]

def run [Zero α] (callee : Callee α) : Move → Gateway α → Option (Gateway α)
  | argument i start, g => some { g with arg := Function.update g.arg i start.toInt }
  | result i start, g => some { g with res := Function.update g.res i start.toInt }
  | scan count, g => g.scan count 0
  | call work, g => (callee g.arg g.res work.toInt g.w).map fun w => { g with w }
  | print start count, g =>
    some { g with printed := g.printed ++ peek g.w start.toInt count }
  | clear start count, g => some { g with w := poke g.w start.toInt (List.replicate count 0) }

def runAll [Zero α] (callee : Callee α) (moves : List Move) (g : Gateway α) : Option (Gateway α) :=
  moves.foldlM (fun g move => move.run callee g) g

/-- Set the pointers to the arguments. -/
def arguments (starts : List Int64) : List Move :=
  starts.zipIdx.map fun p => argument p.2 p.1

/-- Set the pointers to the results. -/
def results (starts : List Int64) : List Move :=
  starts.zipIdx.map fun p => result p.2 p.1

end Move

open Move

/-- The entry that reads the inputs from the standard input and writes the outputs. -/
def mainMoves (o : Options) (f : Routine Float) : List Move :=
  let frame := Frame.ofRoutine o f
  arguments frame.inputs ++ results frame.outputs ++
    [.scan (nonzeros f.inputs), .call frame.work,
      .print (Int64.ofNat (nonzeros f.inputs)) (nonzeros f.outputs)]

/-- The gateway for MATLAB, from when it has the inputs to when it calls the routine. -/
def mexMoves (o : Options) (f : Routine Float) : List Move :=
  let frame := Frame.ofRoutine o f
  (if 0 < nonzeros f.outputs then [.clear (frame.outputs.headD 0) (nonzeros f.outputs)] else []) ++
    results frame.outputs

theorem flatMap_lines_results (name : String) (frame : Frame) :
    (results frame.outputs).flatMap (lines name) = resultLines frame := by
  rw [results, List.flatMap_map, resultLines, List.map_eq_flatMap]
  rfl

theorem mainLines_eq (o : Options) (code : Section) :
    mainLines o code =
      ["int main_" ++ code.routine.name ++ "(int argc, char* argv[]) \x7b",
        "  int j, flag;", "  double v;", "  real_t* a;", "  const real_t* r;"] ++
      vectorLines code.routine (Frame.ofRoutine o code.routine) ++
      (mainMoves o code.routine).flatMap (lines code.routine.name) ++
      ["  PRINTF(\"\\n\");", "  return 0;", "\x7d", ""] := by
  have harguments : (arguments (Frame.ofRoutine o code.routine).inputs).flatMap
      (lines code.routine.name) = _ := List.flatMap_map _ _ _
  rw [mainMoves, List.flatMap_append, List.flatMap_append, flatMap_lines_results, harguments,
    mainLines, List.map_eq_flatMap]
  simp only [List.append_assoc]
  rfl

theorem infix_mexLines (o : Options) (code : Section) :
    (mexMoves o code.routine).flatMap (lines code.routine.name) <:+: mexLines o code := by
  have hclear : (mexMoves o code.routine).flatMap (lines code.routine.name) =
      (if 0 < nonzeros code.routine.outputs then
        ["  fill(" ++ shifted "w" ((Frame.ofRoutine o code.routine).outputs.headD 0) ++ ", "
          ++ toString (nonzeros code.routine.outputs) ++ ", 0);"]
      else []) ++ resultLines (Frame.ofRoutine o code.routine) := by
    rw [mexMoves, List.flatMap_append, flatMap_lines_results]
    split <;> rfl
  rw [hclear, mexLines]
  iterate 4 refine List.IsInfix.trans ?_ (List.prefix_append _ _).isInfix
  rw [List.append_assoc]
  exact (List.suffix_append _ _).isInfix

/-! ## Runs -/

section Runs

variable [Zero α] {callee : Callee α} {g : Gateway α}

theorem runAll_append (moves moves' : List Move) (g : Gateway α) :
    runAll callee (moves ++ moves') g = (runAll callee moves g).bind (runAll callee moves') :=
  List.foldlM_append

theorem runAll_arguments (starts : List Int64) : ∀ (k : Nat) (g : Gateway α),
    runAll callee ((starts.zipIdx k).map fun p => argument p.2 p.1) g =
      some { g with arg := poke g.arg k (starts.map Int64.toInt) } := by
  induction starts with
  | nil => exact fun _ _ => rfl
  | cons start starts ih => exact fun k g => ih (k + 1) _

theorem runAll_results (starts : List Int64) : ∀ (k : Nat) (g : Gateway α),
    runAll callee ((starts.zipIdx k).map fun p => result p.2 p.1) g =
      some { g with res := poke g.res k (starts.map Int64.toInt) } := by
  induction starts with
  | nil => exact fun _ _ => rfl
  | cons start starts ih => exact fun k g => ih (k + 1) _

omit [Zero α] in
theorem scan_eq (n : Nat) : ∀ (a : Int) (g : Gateway α), g.scan n a =
    if n ≤ g.unread.length then
      some { g with w := poke g.w a (g.unread.take n), unread := g.unread.drop n }
    else none := by
  induction n with
  | zero => exact fun a g => rfl
  | succ n ih =>
    intro a g
    rw [Gateway.scan]
    rcases hunread : g.unread with _ | ⟨v, rest⟩
    · rfl
    · simp only [ih, List.length_cons, Nat.add_le_add_iff_right]
      rfl

/-- A whole run of the entry: with enough numbers, the routine is called with what was read. -/
theorem runAll_mainMoves (o : Options) (f : Routine Float) (g : Gateway α) :
    let frame := Frame.ofRoutine o f
    let arg := poke g.arg 0 (frame.inputs.map Int64.toInt)
    let res := poke g.res 0 (frame.outputs.map Int64.toInt)
    runAll callee (mainMoves o f) g =
      if nonzeros f.inputs ≤ g.unread.length then
        (callee arg res frame.work.toInt (poke g.w 0 (g.unread.take (nonzeros f.inputs)))).map
          fun w => {
            w, arg, res
            unread := g.unread.drop (nonzeros f.inputs)
            printed := g.printed ++
              peek w (Int64.ofNat (nonzeros f.inputs)).toInt (nonzeros f.outputs) }
      else none := by
  intro frame arg res
  have hpointers : runAll callee (arguments frame.inputs ++ results frame.outputs) g =
      some { g with arg, res } := by
    rw [runAll_append, arguments, runAll_arguments]
    exact runAll_results frame.outputs 0 _
  rw [mainMoves, runAll_append, hpointers, Option.bind_some]
  simp only [runAll, List.foldlM_cons, List.foldlM_nil, Move.run, scan_eq]
  split
  · simp only [Option.bind_eq_bind, Option.bind_some]
    cases callee arg res frame.work.toInt (poke g.w 0 (g.unread.take (nonzeros f.inputs))) <;> rfl
  · rfl

/-- A whole run of the gateway for MATLAB, up to the call: the outputs are cleared. -/
theorem runAll_mexMoves (o : Options) (f : Routine Float) (g : Gateway α) :
    let frame := Frame.ofRoutine o f
    runAll callee (mexMoves o f) g = some { g with
      w := poke g.w (frame.outputs.headD 0).toInt (List.replicate (nonzeros f.outputs) 0)
      res := poke g.res 0 (frame.outputs.map Int64.toInt) } := by
  intro frame
  have hclear : runAll callee (if 0 < nonzeros f.outputs then
      [.clear (frame.outputs.headD 0) (nonzeros f.outputs)] else []) g = some { g with
        w := poke g.w (frame.outputs.headD 0).toInt (List.replicate (nonzeros f.outputs) 0) } := by
    split
    · rfl
    · next hnone =>
      rw [Nat.eq_zero_of_not_pos hnone]
      rfl
  rw [mexMoves, runAll_append, hclear]
  exact runAll_results frame.outputs 0 _

end Runs

/-! ## Gateways -/

/-- What stands where in the vector of reals: arguments one after another, in order and apart from
the temporary, which has room for every input, and from the work vector. -/
structure LaidOut (o : Options) (f : Routine Float) : Prop where
  inputs : Placed 0 f.inputs (Frame.ofRoutine o f).inputs
  outputs : Placed (nonzeros f.inputs) f.outputs (Frame.ofRoutine o f).outputs
  ordered : (layout o f).Pairwise Region.Before
  apart : (layout o f).Pairwise fun r r' => Disjoint r.places r'.places
  temporary : ∀ sp : SharedPattern, some sp ∈ f.inputs →
    sp.pattern.numel.toInt ≤ placesOfLargest f.inputs

section Frame

variable {o : Options} {f : Routine Float}

theorem laidOut (hwf : WellFormedAll f.inputs) (h : argumentCells f < 2 ^ 63) : LaidOut o f := by
  have hordered := pairwise_layout (o := o) hwf h
  have hstop := toInt_stop_inputs h
  unfold argumentCells at h
  refine ⟨placed_starts f.inputs rfl (by omega), placed_starts f.outputs hstop (by omega), hordered,
    hordered.imp Region.Before.disjoint, fun sp hsp => ?_⟩
  have hle := le_placesOfLargest hsp
  rw [toInt_numel (hwf sp hsp) (by omega)]
  exact_mod_cast hle

/-- Clearing from the first output on clears the outputs and nothing else. -/
theorem poke_outputs [Zero α] (h : argumentCells f < 2 ^ 63) (w : Int → α) (p : Int) :
    poke w ((Frame.ofRoutine o f).outputs.headD 0).toInt
        (List.replicate (nonzeros f.outputs) 0) p =
      if nonzeros f.inputs ≤ p ∧ p < nonzeros f.inputs + nonzeros f.outputs then 0 else w p := by
  rw [poke_replicate, ← toInt_stop_inputs h]
  have houtputs : (Frame.ofRoutine o f).outputs =
    (Frame.starts (Frame.starts 0 f.inputs).2 f.outputs).1 := rfl
  rw [houtputs]
  cases f.outputs with
  | nil =>
    have : nonzeros [] = 0 := rfl
    rw [if_neg (by omega), if_neg (by omega)]
  | cons sp rest => rfl

theorem mem_outputs_iff (h : argumentCells f < 2 ^ 63) (p : Int) :
    (∃ r ∈ argumentRegions (Frame.ofRoutine o f).outputs f.outputs, p ∈ r.places) ↔
      nonzeros f.inputs ≤ p ∧ p < nonzeros f.inputs + nonzeros f.outputs := by
  have hstop := toInt_stop_inputs h
  unfold argumentCells at h
  rw [← hstop]
  exact (ordered_argumentRegions f.outputs _ (by omega) (by omega)).2.2 p

end Frame

/-- The gateways use the layout as it is. Where the nonzeros and the temporary end among the machine
integers, all is laid out in order. The text of the entry is that of its moves: it scans the `n`-th
number to the nonzero with this number, through the pointer to its argument, and prints the nonzeros
of the outputs in order, through the pointers to the results. The gateway for MATLAB clears the
outputs and nothing else. -/
theorem gateways_follow_layout (o : Options) (code : Section)
    (hwf : WellFormedAll code.routine.inputs) (hcells : argumentCells code.routine < 2 ^ 63) :
    let f := code.routine
    let frame := Frame.ofRoutine o f
    LaidOut o f ∧
      mainLines o code =
        ["int main_" ++ f.name ++ "(int argc, char* argv[]) \x7b",
          "  int j, flag;", "  double v;", "  real_t* a;", "  const real_t* r;"] ++
        vectorLines f frame ++ (mainMoves o f).flatMap (lines f.name) ++
        ["  PRINTF(\"\\n\");", "  return 0;", "\x7d", ""] ∧
      (mexMoves o f).flatMap (lines f.name) <:+: mexLines o code ∧
      (∀ n < nonzeros f.inputs, ∃! place, Numbered f.inputs place n) ∧
      ∀ (α : Type) [Zero α] (callee : Callee α) (g : Gateway α),
        let arg := poke g.arg 0 (frame.inputs.map Int64.toInt)
        let res := poke g.res 0 (frame.outputs.map Int64.toInt)
        let w := poke g.w 0 (g.unread.take (nonzeros f.inputs))
        (runAll callee (mainMoves o f) g =
          if nonzeros f.inputs ≤ g.unread.length then
            (callee arg res frame.work.toInt w).map fun w' => {
              w := w', arg, res
              unread := g.unread.drop (nonzeros f.inputs)
              printed := g.printed ++
                f.outputs.zipIdx.flatMap fun p => peek w' (res p.2) (nonzeros [p.1]) }
          else none) ∧
        (∀ place n v, Numbered f.inputs place n → g.unread[n]? = some v →
          w (arg place.1 + place.2) = v) ∧
        ∃ w', runAll callee (mexMoves o f) g = some { g with w := w', res } ∧
          ∀ p, ((∃ r ∈ argumentRegions frame.outputs f.outputs, p ∈ r.places) → w' p = 0) ∧
            ((¬∃ r ∈ argumentRegions frame.outputs f.outputs, p ∈ r.places) → w' p = g.w p) := by
  intro f frame
  have hlaid : LaidOut o f := laidOut hwf hcells
  have hinputs : nonzeros f.inputs < 2 ^ 63 := by
    have h : nonzeros f.inputs + nonzeros f.outputs + placesOfLargest f.inputs < 2 ^ 63 := hcells
    omega
  refine ⟨hlaid, mainLines_eq o code, infix_mexLines o code, fun n => existsUnique_numbered, ?_⟩
  intro α _ callee g arg res w
  refine ⟨?_, ?_, _, runAll_mexMoves o f g, fun p => ?_⟩
  · rw [runAll_mainMoves, Int64.toInt_ofNat_of_lt hinputs]
    have hprinted : ∀ w' : Int → α, peek w' (nonzeros f.inputs) (nonzeros f.outputs) =
        f.outputs.zipIdx.flatMap fun p => peek w' (res p.2) (nonzeros [p.1]) := fun w' =>
      peek_arguments w' 0 fun j hj => by rw [Nat.zero_add]; exact hlaid.outputs.poke g.res hj
    simp only [hprinted]
    rfl
  · intro place n v hplace hv
    have hn := hplace.lt
    obtain ⟨sp, hsp, -, rfl⟩ := hplace
    have harg : arg place.1 = _ := hlaid.inputs.poke g.arg (List.getElem?_eq_some_iff.1 hsp).1
    have hscanned := poke_inside (w := g.w) (a := 0) ((List.getElem?_take_of_lt hn).trans hv)
    rw [harg, ← hscanned, Nat.cast_add, Nat.cast_zero, Int.add_assoc]
  · rw [poke_outputs hcells, mem_outputs_iff hcells]
    exact ⟨fun h => if_pos h, fun h => if_neg h⟩

/-- A routine that adds a scalar to a column, with an argument that has no nonzeros between them:
three numbers are read, and two are printed. -/
theorem gateways_follow_layout_shift :
    let column : SharedPattern := ⟨1, 2, 1, [0, 2], [0, 1]⟩
    let empty : SharedPattern := ⟨2, 3, 1, [0, 0], []⟩
    let f : Routine Float :=
      ⟨"shift", [some column, some empty, some .scalar], [some empty, some column], 1, 4, 0, []⟩
    let callee : Callee Int := fun arg res _ w =>
      some (poke w (res 1) [w (arg 0) + w (arg 2), w (arg 0 + 1) + w (arg 2)])
    let g : Gateway Int := ⟨fun _ => 7, fun _ => 0, fun _ => 0, [10, 20, 3], []⟩
    WellFormedAll f.inputs ∧ argumentCells f < 2 ^ 63 ∧
      (runAll callee (mainMoves {} f) g).map (·.printed) = some [13, 23] ∧
      (runAll callee (mexMoves {} f) g).map (fun g => peek g.w 2 4) = some [7, 0, 0, 7] := by
  intro column empty f callee g
  have hwf : WellFormedAll f.inputs := by
    intro sp hsp
    simp only [f, List.mem_cons, Option.some.injEq, List.not_mem_nil, or_false] at hsp
    rcases hsp with rfl | rfl | rfl <;> decide
  have hcells : argumentCells f < 2 ^ 63 := by decide +kernel
  obtain ⟨-, -, -, -, hruns⟩ := gateways_follow_layout {} ⟨f, [], [0, 1, 2], [1, 0]⟩ hwf hcells
  refine ⟨hwf, hcells, ?_, by decide +kernel⟩
  rw [(hruns Int callee g).1]
  decide +kernel

end Tangent.CodeModule
