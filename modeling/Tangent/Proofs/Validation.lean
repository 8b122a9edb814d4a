import Mathlib
import Tangent.Proofs.Loops
import Tangent.Proofs.Run

/-!
# What validation accepts

An instruction names scalar slots and ranges of the two work vectors, and its operands have patterns
that have to go together. `Instr.Sound` says that all of this passes the checks, and a routine is
accepted exactly if every one of its instructions is sound (`Routine.validate_ok_iff`).

The checks compute the end of a range on machine integers. If it does not wrap around, a range that
passes lies inside of the work vector; if it does, it never lies inside
(`Routine.ranges_inside_iff`).
-/

namespace Tangent

variable {K : Type}

/-! ## Ranges -/

/-- A stretch of a work vector. -/
structure WorkRange where
  offset : Int64
  size : Int64

namespace WorkRange

/-- The end of the range, as an integer that does not wrap around. -/
def stop (r : WorkRange) : Int :=
  r.offset.toInt + r.size.toInt

/-- Every place of the range is one of a vector of size `n`. -/
def Inside (r : WorkRange) (n : Int64) : Prop :=
  ∀ i : Int, r.offset.toInt ≤ i → i < r.stop → 0 ≤ i ∧ i < n.toInt

/-- The range passes the checks against a vector of size `n`. -/
structure Passes (r : WorkRange) (n : Int64) : Prop where
  size_nonneg : 0 ≤ r.size
  offset_nonneg : 0 ≤ r.offset
  stop_le : r.offset + r.size ≤ n

variable {r : WorkRange} {n : Int64}

/-- Without a wrap-around, the end that is checked is the end of the range. -/
theorem Passes.stop_le_toInt (h : r.Passes n) (hstop : r.stop < 2 ^ 63) : r.stop ≤ n.toInt := by
  have hsize := Int64.le_iff_toInt_le.1 h.size_nonneg
  have hoffset := Int64.le_iff_toInt_le.1 h.offset_nonneg
  have hle := Int64.le_iff_toInt_le.1 h.stop_le
  rw [Int64.toInt_zero] at hsize hoffset
  rw [stop] at hstop ⊢
  rwa [Int64.toInt_add, Int.bmod_eq_of_le (by omega) (by omega)] at hle

theorem passes_of_stop_le (hsize : 0 ≤ r.size) (hoffset : 0 ≤ r.offset) (h : r.stop ≤ n.toInt) :
    r.Passes n := by
  refine ⟨hsize, hoffset, Int64.le_iff_toInt_le.2 ?_⟩
  rw [Int64.le_iff_toInt_le, Int64.toInt_zero] at hsize hoffset
  have hn := n.toInt_lt
  rw [stop] at h
  rwa [Int64.toInt_add, Int.bmod_eq_of_le (by omega) (by omega)]

/-- The last place of a range inside of a vector is a machine integer. -/
theorem Inside.stop_lt (h : r.Inside n) : r.stop < 2 ^ 63 := by
  have hlast := h (r.stop - 1)
  have hoffset := r.offset.toInt_lt
  have hn := n.toInt_lt
  omega

theorem Passes.inside_iff (h : r.Passes n) : r.Inside n ↔ r.stop < 2 ^ 63 := by
  refine ⟨Inside.stop_lt, fun hstop i hfirst hlast => ?_⟩
  have hoffset := Int64.le_iff_toInt_le.1 h.offset_nonneg
  have hle := h.stop_le_toInt hstop
  rw [Int64.toInt_zero] at hoffset
  omega

end WorkRange

/-! ## Instructions -/

/-- There is an argument with the number, and it has the nonzero. -/
structure HasNonzero (patterns : List (Option SharedPattern)) (arg nonzero : Int64) : Prop where
  arg_nonneg : 0 ≤ arg
  arg_lt : arg < Int64.ofNat patterns.length
  nonneg : 0 ≤ nonzero
  lt : nonzero < Int64.ofNat (Routine.nonzeros [(patterns[arg.toNatClampNeg]?).join])

namespace Instr

/-- The scalar slots that an instruction reads or writes. -/
def slots : Instr K → List Int64
  | input slot _ _ | output _ _ slot | const slot _ | gather slot _ | scatter _ slot
  | constElement slot _ _ | scale _ slot _ | axpy _ slot _ _ | dot slot _ _ _
  | reduce _ slot _ _ | bilinear slot _ _ _ _ | rank1 _ _ slot _ _ => [slot]
  | apply c slot x y =>
    match c.op? with
    | some (.binary _) => [slot, x, y]
    | _ => [slot, x]
  | external slot _ args => slot :: args
  | constArray .. | fill .. | copy .. | swap .. | project .. | transpose .. | multiply .. => []

/-- The ranges of the work vector that an instruction reads or writes. -/
def workRanges : Instr K → List WorkRange
  | gather _ offset | scatter offset _ => [⟨offset, 1⟩]
  | constArray offset values => [⟨offset, Int64.ofNat values.length⟩]
  | fill offset n _ => [⟨offset, n⟩]
  | copy source n target => [⟨source, n⟩, ⟨target, n⟩]
  | swap n x y | axpy n _ x y | dot _ n x y => [⟨x, n⟩, ⟨y, n⟩]
  | scale n _ x | reduce _ _ n x => [⟨x, n⟩]
  | bilinear _ a (some p) x y | rank1 a (some p) _ x y =>
    [⟨a, Int64.ofNat p.pattern.nnz⟩, ⟨x, p.pattern.nrow⟩, ⟨y, p.pattern.ncol⟩]
  | project source (some p) target (some q) temporary =>
    [⟨source, Int64.ofNat p.pattern.nnz⟩, ⟨target, Int64.ofNat q.pattern.nnz⟩,
      ⟨temporary, p.pattern.nrow⟩]
  | transpose source (some p) target (some q) _ =>
    [⟨source, Int64.ofNat p.pattern.nnz⟩, ⟨target, Int64.ofNat q.pattern.nnz⟩]
  | multiply x (some p) y (some q) z (some r) temporary transposed =>
    [⟨x, Int64.ofNat p.pattern.nnz⟩, ⟨y, Int64.ofNat q.pattern.nnz⟩,
      ⟨z, Int64.ofNat r.pattern.nnz⟩,
      ⟨temporary, if transposed then q.pattern.nrow else r.pattern.nrow⟩]
  | _ => []

/-- The ranges of the integer work vector that an instruction reads or writes. -/
def iworkRanges : Instr K → List WorkRange
  | transpose _ _ _ (some q) temporary => [⟨temporary, q.pattern.ncol⟩]
  | _ => []

/-- What an instruction refers to beside the slots and the work vectors is there, and the patterns
of its operands go together. -/
def Matched (f : Routine K) : Instr K → Prop
  | input _ arg nonzero => HasNonzero f.inputs arg nonzero
  | output res nonzero _ => HasNonzero f.outputs res nonzero
  | apply c _ _ _ => (∃ u, c.op? = some (.unary u)) ∨ ∃ b, c.op? = some (.binary b)
  | constElement _ values index => 0 ≤ index ∧ index < Int64.ofNat values.length
  | bilinear _ _ sp _ _ | rank1 _ sp _ _ _ => sp.isSome
  | project _ spSource _ spTarget _ =>
    ∃ p q, spSource = some p ∧ spTarget = some q ∧ p.pattern.sameSize q.pattern
  | transpose _ spSource _ spTarget _ =>
    ∃ p q, spSource = some p ∧ spTarget = some q ∧
      ∃ numbers, p.pattern.transpose = .ok (q.pattern, numbers)
  | multiply _ spX _ spY _ spZ _ transposed =>
    ∃ p q r, spX = some p ∧ spY = some q ∧ spZ = some r ∧
      (if transposed then p.pattern.nrow else p.pattern.ncol) = q.pattern.nrow ∧
      (if transposed then p.pattern.ncol else p.pattern.nrow) = r.pattern.nrow ∧
      q.pattern.ncol = r.pattern.ncol
  | external _ name _ => isIdentifier name
  | _ => True

@[mk_iff sound_iff]
structure Sound (f : Routine K) (instr : Instr K) : Prop where
  slots : ∀ i ∈ instr.slots, 0 ≤ i ∧ i < f.scalars
  work : ∀ r ∈ instr.workRanges, r.Passes f.work
  iwork : ∀ r ∈ instr.iworkRanges, r.Passes f.iwork
  matched : instr.Matched f

end Instr

namespace Routine

variable {f : Routine K}

@[simp]
theorem slotIssues_eq_nil_iff {what : String} {slot : Int64} :
    f.slotIssues what slot = [] ↔ 0 ≤ slot ∧ slot < f.scalars := by
  simp [slotIssues, Int64.not_lt, Int64.not_le]

@[simp]
theorem workIssues_eq_nil_iff {what : String} {offset n : Int64} :
    f.workIssues what offset n = [] ↔ WorkRange.Passes ⟨offset, n⟩ f.work := by
  unfold workIssues
  split_ifs with hn h
  · exact iff_of_false (by simp) fun h => Int64.not_lt.2 h.size_nonneg hn
  · refine iff_of_false (by simp) fun hp => ?_
    simp [Int64.not_lt.2 hp.offset_nonneg, Int64.not_lt.2 hp.stop_le] at h
  · simp only [Bool.or_eq_true, decide_eq_true_eq, not_or, Int64.not_lt] at hn h
    exact iff_of_true rfl ⟨hn, h.1, h.2⟩

theorem iworkIssues_eq_nil_iff {what : String} {offset n : Int64} (hn : 0 ≤ n) :
    f.iworkIssues what offset n = [] ↔ WorkRange.Passes ⟨offset, n⟩ f.iwork := by
  unfold iworkIssues
  split_ifs with h
  · refine iff_of_false (by simp) fun hp => ?_
    simp [Int64.not_lt.2 hp.offset_nonneg, Int64.not_lt.2 hp.stop_le] at h
  · simp only [Bool.or_eq_true, decide_eq_true_eq, not_or, Int64.not_lt] at h
    exact iff_of_true rfl ⟨hn, h.1, h.2⟩

@[simp]
theorem nonzeroIssues_eq_nil_iff {side : Side} {patterns : List (Option SharedPattern)}
    {arg nonzero slot : Int64} {what : String} :
    f.nonzeroIssues side patterns arg nonzero what slot = [] ↔
      HasNonzero patterns arg nonzero ∧ 0 ≤ slot ∧ slot < f.scalars := by
  unfold nonzeroIssues
  simp only
  split_ifs with harg hnonzero
  · refine iff_of_false (by simp) fun h => ?_
    simp [Int64.not_lt.2 h.1.arg_nonneg, Int64.not_le.2 h.1.arg_lt] at harg
  · refine iff_of_false (by simp) fun h => ?_
    simp [Int64.not_lt.2 h.1.nonneg, Int64.not_le.2 h.1.lt] at hnonzero
  · simp only [Bool.or_eq_true, decide_eq_true_eq, not_or, Int64.not_lt, Int64.not_le]
      at harg hnonzero
    rw [slotIssues_eq_nil_iff]
    exact ⟨fun h => ⟨⟨harg.1, harg.2, hnonzero.1, hnonzero.2⟩, h⟩, And.right⟩

end Routine

/-- What a transposed pattern has in common with the pattern. -/
theorem Pattern.of_transpose {p q : Pattern} {numbers : List Nat}
    (h : p.transpose = .ok (q, numbers)) : 0 ≤ p.nrow ∧ q.ncol = p.nrow ∧
      fits (p.nrow + 1) ∧ offsetsOf p.nrow p.rows = .ok q.offsets := by
  unfold Pattern.transpose at h
  split_ifs at h with hrow
  · obtain ⟨offsets, hoffsets, h⟩ := bind_eq_ok_iff.1 h
    obtain ⟨entries, -, h⟩ := bind_eq_ok_iff.1 h
    obtain ⟨s, -, h⟩ := bind_eq_ok_iff.1 h
    obtain ⟨rfl, -⟩ := Prod.mk.inj (Except.ok.inj h)
    simp only [Bool.and_eq_true, decide_eq_true_eq] at hrow
    exact ⟨hrow.1, rfl, hrow.2, hoffsets⟩
  · cases h

namespace Instr

@[simp]
theorem ok_eq_ok_nil_iff {issues : List Issue} :
    (pure issues : Result (List Issue)) = .ok [] ↔ issues = [] :=
  ⟨Except.ok.inj, congrArg Except.ok⟩

/-- Nothing is wrong with an instruction exactly if it is sound. -/
theorem issues_eq_nil_iff {f : Routine K} {instr : Instr K} :
    instr.issues f = .ok [] ↔ instr.Sound f := by
  rw [sound_iff]
  cases instr with
  | input _ _ _ | output _ _ _ =>
    simp [issues, slots, workRanges, iworkRanges, Matched, and_comm]
  | const _ _ | gather _ _ | scatter _ _ | constArray _ _ | fill _ _ _ | copy _ _ _ | swap _ _ _
  | scale _ _ _ | axpy _ _ _ _ | dot _ _ _ _ | reduce _ _ _ _ =>
    simp [issues, slots, workRanges, iworkRanges, Matched, and_assoc]
  | apply c slot x y =>
    rw [issues]
    split
    · next h => simp [slots, workRanges, iworkRanges, Matched, h]
    · next h => simp [slots, workRanges, iworkRanges, Matched, h, and_assoc]
    · next h₁ h₂ =>
      refine iff_of_false (by simp) fun h => ?_
      rcases h.2.2.2 with ⟨u, h⟩ | ⟨b, h⟩
      · exact h₁ u h
      · exact h₂ b h
  | constElement slot values index =>
    rw [issues]
    split_ifs with h
    · refine iff_of_false (by simp) fun hs => ?_
      obtain ⟨h0, hlt⟩ := hs.2.2.2
      simp [Int64.not_lt.2 h0, Int64.not_le.2 hlt] at h
    · simp only [Bool.or_eq_true, decide_eq_true_eq, not_or, Int64.not_lt, Int64.not_le] at h
      simp [slots, workRanges, iworkRanges, Matched, h]
  | bilinear _ _ sp _ _ | rank1 _ sp _ _ _ =>
    cases sp <;>
      simp [issues, slots, workRanges, iworkRanges, Matched, missingPatterns, and_assoc]
  | project source spSource target spTarget temporary =>
    rcases spSource with _ | p <;> rcases spTarget with _ | q
    case some.some =>
      by_cases h : p.pattern.sameSize q.pattern <;>
        simp [issues, slots, workRanges, iworkRanges, Matched, h]
    all_goals simp [issues, Matched, missingPatterns]
  | transpose source spSource target spTarget temporary =>
    rcases spSource with _ | p <;> rcases spTarget with _ | q
    case some.some =>
      rcases h : p.pattern.transpose with e | ⟨t, numbers⟩
      · simp [issues, Matched, h, bind, Except.bind]
      · by_cases ht : t = q.pattern
        · subst ht
          have hncol : 0 ≤ q.pattern.ncol := by
            obtain ⟨hrow, hncol, -⟩ := Pattern.of_transpose h
            rwa [hncol]
          simp [issues, slots, workRanges, iworkRanges, Matched, h, bind, Except.bind,
            Routine.iworkIssues_eq_nil_iff hncol, and_assoc]
        · simp [issues, Matched, h, ht, bind, Except.bind]
    all_goals simp [issues, Matched, missingPatterns]
  | multiply x spX y spY z spZ temporary transposed =>
    rcases spX with _ | p <;> rcases spY with _ | q <;> rcases spZ with _ | r
    case some.some.some =>
      by_cases h : (if transposed then p.pattern.nrow else p.pattern.ncol) = q.pattern.nrow ∧
          (if transposed then p.pattern.ncol else p.pattern.nrow) = r.pattern.nrow ∧
          q.pattern.ncol = r.pattern.ncol
      · simp [issues, slots, workRanges, iworkRanges, Matched, h]
      · rw [issues, if_neg (by simpa [and_assoc] using h)]
        refine iff_of_false (by simp) ?_
        rintro ⟨-, -, -, _, _, _, ⟨⟩, ⟨⟩, ⟨⟩, hm⟩
        exact h hm
    all_goals simp [issues, Matched, missingPatterns]
  | external slot name args =>
    by_cases h : isIdentifier name <;>
      simp [issues, slots, workRanges, iworkRanges, Matched, h]

end Instr

/-! ## Routines -/

theorem Error.combine?_eq_none_iff {errors : List Error} :
    combine? errors = none ↔ errors = [] := by
  rcases errors with _ | ⟨e, _ | ⟨e', errors⟩⟩ <;> simp [combine?]

namespace Routine

variable {f : Routine K}

theorem filterMapM_eq_nil_iff {α β ε : Type} {g : α → Except ε (Option β)} {xs : List α} :
    xs.filterMapM g = .ok [] ↔ ∀ x ∈ xs, g x = .ok none := by
  refine ⟨fun h => ?_, filterMapM_eq_nil⟩
  induction xs with
  | nil => simp
  | cons x xs ih =>
    rw [List.filterMapM_cons] at h
    rcases hx : g x with e | (_ | b)
    · rw [hx] at h
      cases h
    · rw [hx] at h
      exact List.forall_mem_cons.2 ⟨hx, ih h⟩
    · rw [hx] at h
      rcases hrest : xs.filterMapM g with e | rest <;>
        simp [bind, Except.bind, hrest, pure, Except.pure] at h

theorem missingArguments_eq_nil_iff (side : Side) {patterns : List (Option SharedPattern)} :
    missingArguments side patterns = [] ↔ ∀ sp ∈ patterns, sp.isSome := by
  refine ⟨fun h sp hsp => ?_, missingArguments_eq_nil side⟩
  obtain ⟨i, hi⟩ := List.getElem?_of_mem hsp
  rw [missingArguments, missingPatterns, List.filterMap_eq_nil_iff] at h
  have := h (side.name ++ " " ++ toString i, sp)
    (List.mem_map.2 ⟨(sp, i), List.mk_mem_zipIdx_iff_getElem?.2 hi, rfl⟩)
  simpa [Option.ne_none_iff_isSome] using this

theorem instrError_eq_none_iff {instr : Instr K} {i : Nat} :
    f.instrError instr i = .ok none ↔ instr.Sound f := by
  rw [← Instr.issues_eq_nil_iff, instrError]
  rcases instr.issues f with e | issues
  · simp [bind, Except.bind]
  · simp [bind, Except.bind, pure, Except.pure, Error.combine?_eq_none_iff]

theorem filterMapM_instrError_eq_nil_iff :
    (f.body.zipIdx.filterMapM fun (instr, i) => f.instrError instr i) = .ok [] ↔
      ∀ instr ∈ f.body, instr.Sound f := by
  rw [filterMapM_eq_nil_iff]
  constructor
  · intro h instr hinstr
    obtain ⟨i, hi⟩ := List.getElem?_of_mem hinstr
    exact instrError_eq_none_iff.1 (h (instr, i) (List.mk_mem_zipIdx_iff_getElem?.2 hi))
  · rintro h ⟨instr, i⟩ hi
    exact instrError_eq_none_iff.2
      (h instr (List.mem_of_getElem? (List.mk_mem_zipIdx_iff_getElem?.1 hi)))

/-- A routine is accepted exactly if it has a name, its arguments have patterns and its instructions
are sound. -/
theorem validate_ok_iff : f.validate = .ok () ↔ isIdentifier f.name ∧
    (∀ sp ∈ f.inputs ++ f.outputs, sp.isSome) ∧ ∀ instr ∈ f.body, instr.Sound f := by
  rw [← filterMapM_instrError_eq_nil_iff, List.forall_mem_append,
    ← missingArguments_eq_nil_iff .input, ← missingArguments_eq_nil_iff .output,
    ← List.append_eq_nil_iff]
  by_cases hname : isIdentifier f.name
  · generalize hmissing :
      missingArguments .input f.inputs ++ missingArguments .output f.outputs = missing
    generalize hfound : (f.body.zipIdx.filterMapM fun (instr, i) => f.instrError instr i) = found
    simp only [validate, hname, hmissing, hfound]
    rcases hm : Error.combine? (missing.map .issue) with _ | e
    · obtain rfl := List.map_eq_nil_iff.1 (Error.combine?_eq_none_iff.1 hm)
      rcases found with e | errors
      · simp [bind, Except.bind]
      · rcases he : Error.combine? errors with _ | e
        · obtain rfl := Error.combine?_eq_none_iff.1 he
          simp [bind, Except.bind, pure, Except.pure, he]
        · have hne : errors ≠ [] := fun h => by simp [h, Error.combine?] at he
          simp [bind, Except.bind, he, hne]
    · have hne : missing ≠ [] := fun h => by simp [h, Error.combine?] at hm
      simp [bind, Except.bind, hne]
  · simp [validate, hname, Result.issue, bind, Except.bind]

/-- A range that an accepted routine names lies inside of its work vector unless the end of the
range is too great for a machine integer. -/
theorem ranges_inside_iff (hf : f.validate = .ok ()) {instr : Instr K} (hinstr : instr ∈ f.body) :
    (∀ r ∈ instr.workRanges, r.Inside f.work ↔ r.stop < 2 ^ 63) ∧
      ∀ r ∈ instr.iworkRanges, r.Inside f.iwork ↔ r.stop < 2 ^ 63 := by
  have hsound := (validate_ok_iff.1 hf).2.2 instr hinstr
  exact ⟨fun r hr => (hsound.work r hr).inside_iff, fun r hr => (hsound.iwork r hr).inside_iff⟩

/-- A routine with a work vector of one element and an empty integer work vector. Its last two
instructions name ranges that start at the greatest machine integer. -/
def wrapping : Routine Unit where
  name := "f"
  inputs := []
  outputs := []
  scalars := 0
  work := 1
  iwork := 0
  body := [.fill 0 1 (), .fill Int64.maxValue 1 (),
    .transpose 0 (some ⟨0, .scalar⟩) 0 (some ⟨0, .scalar⟩) Int64.maxValue]

theorem validate_wrapping : wrapping.validate = .ok () := by
  cbv

/-- The first range of the routine lies inside, and the second does not. -/
theorem ranges_inside_iff_wrapping : wrapping.validate = .ok () ∧
    WorkRange.Inside ⟨0, 1⟩ wrapping.work ∧
      ¬WorkRange.Inside ⟨Int64.maxValue, 1⟩ wrapping.work := by
  have hnear := (ranges_inside_iff validate_wrapping
    (show .fill 0 1 () ∈ wrapping.body by simp [wrapping])).1 _ (List.mem_singleton.2 rfl)
  have hfar := (ranges_inside_iff validate_wrapping
    (show .fill Int64.maxValue 1 () ∈ wrapping.body by simp [wrapping])).1 _
      (List.mem_singleton.2 rfl)
  exact ⟨validate_wrapping, hnear.2 (by decide +kernel), mt hfar.1 (by decide +kernel)⟩

/-- A routine is accepted although it fills and transposes beyond its work vectors. -/
theorem wrapping_not_inside : wrapping.validate = .ok () ∧
    (∃ instr ∈ wrapping.body, ∃ r ∈ instr.workRanges, ¬r.Inside wrapping.work) ∧
      ∃ instr ∈ wrapping.body, ∃ r ∈ instr.iworkRanges, ¬r.Inside wrapping.iwork := by
  have hout : ∀ n, ¬WorkRange.Inside ⟨Int64.maxValue, 1⟩ n := fun n h =>
    absurd h.stop_lt (by decide +kernel)
  refine ⟨validate_wrapping, ⟨.fill Int64.maxValue 1 (), ?_, _, List.mem_singleton.2 rfl, hout _⟩,
    .transpose 0 (some ⟨0, .scalar⟩) 0 (some ⟨0, .scalar⟩) Int64.maxValue, ?_, _,
    List.mem_singleton.2 rfl, hout _⟩
  · simp [wrapping]
  · simp [wrapping]

end Routine

end Tangent
