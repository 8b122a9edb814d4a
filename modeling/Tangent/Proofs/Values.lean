import Tangent.Proofs.LayOut
import Tangent.Tape.Eval

/-!
# The values along a tape

One pass over a tape gives every position its value for good : what is appended later does not
change it. So the values satisfy the recurrence that the steps spell out
(`Layout.getD_values_step`), with the given values at the input nonzeros
(`getElem?_values_input`).
-/

set_option linter.unusedSectionVars false

namespace Tangent

variable {K : Type}

/-! ## Steps -/

namespace Step

section Push

variable {V : Type} {f : Array V → Step K → V}

/-- Append what `f` makes of each step and of what stands before it. -/
def pushAll (f : Array V → Step K → V) (steps : List (Step K)) (w : Array V) : Array V :=
  steps.foldl (fun w s => w.push (f w s)) w

theorem size_pushAll (steps : List (Step K)) :
    ∀ w : Array V, (pushAll f steps w).size = w.size + steps.length := by
  induction steps with
  | nil => simp [pushAll]
  | cons s steps ih =>
    intro w
    have := ih (w.push (f w s))
    simp only [Array.size_push] at this
    simp only [pushAll, List.foldl_cons, List.length_cons] at this ⊢
    omega

/-- What is appended does not change what is there. -/
theorem getElem?_pushAll_lt (steps : List (Step K)) :
    ∀ {w : Array V} {j : Nat}, j < w.size → (pushAll f steps w)[j]? = w[j]? := by
  induction steps with
  | nil => simp [pushAll]
  | cons s steps ih =>
    intro w j hj
    have := ih (w := w.push (f w s)) (j := j) (by simp; omega)
    rw [Array.getElem?_push_lt hj, ← Array.getElem?_eq_getElem hj] at this
    simpa [pushAll] using this

/-- If `f` reads the operands of a step alone, every entry is what `f` makes of its step and of the
final entries. -/
theorem getD_pushAll {z : V}
    (hf : ∀ {s : Step K} {w w' : Array V},
      (∀ j ∈ s.operands, w.getD j z = w'.getD j z) → f w s = f w' s) (steps : List (Step K)) :
    ∀ {w : Array V}, (∀ i s, steps[i]? = some s → ∀ j ∈ s.operands, j < w.size + i) →
      ∀ {i : Nat} {s : Step K}, steps[i]? = some s →
        (pushAll f steps w).getD (w.size + i) z = f (pushAll f steps w) s := by
  induction steps with
  | nil => simp
  | cons s steps ih =>
    intro w hread i s' hs'
    set w' := w.push (f w s) with hw'
    have hall : pushAll f (s :: steps) w = pushAll f steps w' := rfl
    have hsize : w'.size = w.size + 1 := by simp [hw']
    rw [hall]
    cases i with
    | zero =>
      obtain rfl : s = s' := by simpa using hs'
      have hget : (pushAll f steps w').getD (w.size + 0) z = f w s := by
        rw [Array.getD_eq_getD_getElem?, Nat.add_zero, getElem?_pushAll_lt steps (by omega), hw']
        simp
      rw [hget]
      refine hf fun j hj => ?_
      have hlt : j < w.size := by simpa using hread 0 s (by simp) j hj
      rw [Array.getD_eq_getD_getElem?, Array.getD_eq_getD_getElem?,
        getElem?_pushAll_lt steps (by omega), hw', Array.getElem?_push_lt hlt,
        Array.getElem?_eq_getElem hlt]
    | succ i =>
      have hget : steps[i]? = some s' := by simpa using hs'
      have := ih (w := w') (fun k r hr j hj => ?_) hget
      · rwa [hsize, Nat.add_right_comm, Nat.add_assoc] at this
      · have := hread (k + 1) r (by simpa using hr) j hj
        omega

end Push

variable [Scalar K]

theorem eval_congr {s : Step K} {w w' : Array K}
    (h : ∀ j ∈ s.operands, w.getD j Scalar.zero = w'.getD j Scalar.zero) :
    s.eval w = s.eval w' := by
  cases s with
  | symbol name => rfl
  | const v => rfl
  | unary u x =>
    simp only [operands, List.mem_singleton, forall_eq] at h
    simp only [eval, h]
  | binary b x y =>
    simp only [operands, List.mem_cons, List.not_mem_nil, or_false, forall_eq_or_imp,
      forall_eq] at h
    simp only [eval, h.1, h.2]

theorem size_evalAll (steps : List (Step K)) (w : Array K) :
    (evalAll steps w).size = w.size + steps.length :=
  size_pushAll steps w

end Step

/-! ## Tapes -/

namespace Tape

variable {openEnded : Bool} {t : Tape K}

theorem length_steps (t : Tape K) : t.steps.length = t.nodes.length := by
  simp [steps]

/-- A step reads the positions of the operands of its node. -/
@[simp] theorem operands_stepOf (t : Tape K) (n : Node K) :
    (t.stepOf n).operands = n.operands.map t.position := by
  cases n <;> rfl

/-- A step reads positions before its own. -/
theorem Layout.operand_lt (h : t.Layout openEnded) {i : Nat} {s : Step K}
    (hs : t.steps[i]? = some s) {j : Nat} (hj : j ∈ s.operands) : j < i := by
  simp only [steps, List.getElem?_map, Option.map_eq_some_iff] at hs
  obtain ⟨n, hn, rfl⟩ := hs
  rw [operands_stepOf] at hj
  obtain ⟨x, hx, rfl⟩ := List.mem_map.1 hj
  exact h.position_operand_lt hn hx

theorem Layout.result_lt (h : t.Layout openEnded) {j : Nat} (hj : j ∈ t.results.flatten) :
    j < t.steps.length := by
  rw [length_steps]
  simp only [results, List.mem_flatten, List.mem_map] at hj
  obtain ⟨positions, ⟨m, hm, rfl⟩, hj⟩ := hj
  obtain ⟨n, hn, rfl⟩ := List.mem_map.1 hj
  exact h.position_output_lt (List.mem_flatMap.2 ⟨m, hm, hn⟩)

section Push

variable {V : Type} {f : Array V → Step K → V} {row : List V}

theorem getElem?_pushAll_input (hrow : row.length = t.width) {i : Nat} (hi : i < t.width) :
    (Step.pushAll f (t.steps.drop t.width) row.toArray)[i]? = row[i]? := by
  rw [Step.getElem?_pushAll_lt _ (by rw [List.size_toArray]; omega), List.getElem?_toArray]

/-- Behind the inputs, every entry is what `f` makes of its step. -/
theorem Layout.getD_pushAll_step (h : t.Layout openEnded) {z : V}
    (hf : ∀ {s : Step K} {w w' : Array V},
      (∀ j ∈ s.operands, w.getD j z = w'.getD j z) → f w s = f w' s)
    (hrow : row.length = t.width) {i : Nat} {s : Step K} (hi : t.width ≤ i)
    (hs : t.steps[i]? = some s) :
    (Step.pushAll f (t.steps.drop t.width) row.toArray).getD i z =
      f (Step.pushAll f (t.steps.drop t.width) row.toArray) s := by
  have hget : (t.steps.drop t.width)[i - t.width]? = some s := by
    rw [List.getElem?_drop, Nat.add_sub_cancel' hi, hs]
  have := Step.getD_pushAll hf (t.steps.drop t.width) (w := row.toArray)
    (fun k r hr j hj => ?_) hget
  · rwa [List.size_toArray, hrow, Nat.add_sub_cancel' hi] at this
  · rw [List.getElem?_drop] at hr
    have := h.operand_lt hr hj
    rw [List.size_toArray]
    omega

end Push

theorem length_flatten_args {V : Type} {args : List (List V)}
    (hargs : args.map List.length = t.inputs.map (·.nnz)) : args.flatten.length = t.width := by
  rw [List.length_flatten, hargs, width_eq_sum]

theorem getElem?_flatten_sum {α : Type} :
    ∀ (rows : List (List α)) {a k : Nat} {row : List α}, rows[a]? = some row → k < row.length →
      rows.flatten[((rows.take a).map List.length).sum + k]? = row[k]?
  | [], a, k, row, h, _ => by simp at h
  | r :: rows, 0, k, row, h, hk => by
    obtain rfl : r = row := by simpa using h
    rw [List.flatten_cons, List.take_zero, List.map_nil, List.sum_nil, Nat.zero_add,
      List.getElem?_append_left hk]
  | r :: rows, a + 1, k, row, h, hk => by
    have := getElem?_flatten_sum rows (a := a) (by simpa using h) hk
    rw [List.flatten_cons, List.take_succ_cons, List.map_cons, List.sum_cons, Nat.add_assoc,
      List.getElem?_append_right (Nat.le_add_right _ _), Nat.add_sub_cancel_left, this]

/-- What is given for a numbered input nonzero stands in its place. -/
theorem getElem?_flatten_numbered {V : Type} {args : List (List V)}
    (hargs : args.map List.length = t.inputs.map (·.nnz)) {i a k : Nat} {n : Node K}
    (hi : (numbered t.inputs)[i]? = some (a, k, n)) :
    args.flatten[i]? = (args[a]?).bind (·[k]?) := by
  obtain ⟨m, hm, hk, hp⟩ := getElem?_numbered hi
  have hrow : (args[a]?).map List.length = some m.nnz := by
    rw [← List.getElem?_map, hargs, List.getElem?_map, hm]
    rfl
  obtain ⟨row, hrow, hlen⟩ := Option.map_eq_some_iff.1 hrow
  have hklt : k < row.length := hlen ▸ (List.getElem?_eq_some_iff.1 hk).1
  have hsum : ((args.take a).map List.length).sum = ((t.inputs.take a).map (·.nnz)).sum := by
    rw [List.map_take, hargs, List.map_take]
  rw [hp, ← hsum, getElem?_flatten_sum args hrow hklt, hrow, Option.bind_some]

variable [Scalar K] {args : List (List K)}

theorem getElem?_values_input (hargs : args.map List.length = t.inputs.map (·.nnz)) {i : Nat}
    (hi : i < t.width) : (t.values args)[i]? = args.flatten[i]? :=
  getElem?_pushAll_input (length_flatten_args hargs) hi

/-- Behind the inputs, every value is that of its step. -/
theorem Layout.getD_values_step (h : t.Layout openEnded)
    (hargs : args.map List.length = t.inputs.map (·.nnz)) {i : Nat} {s : Step K}
    (hi : t.width ≤ i) (hs : t.steps[i]? = some s) :
    (t.values args).getD i Scalar.zero = s.eval (t.values args) :=
  h.getD_pushAll_step Step.eval_congr (length_flatten_args hargs) hi hs

/-- The value of a numbered input nonzero is the one given in its place. -/
theorem getElem?_values_numbered (hargs : args.map List.length = t.inputs.map (·.nnz))
    {i a k : Nat} {n : Node K} (hi : (numbered t.inputs)[i]? = some (a, k, n)) :
    (t.values args)[i]? = (args[a]?).bind (·[k]?) := by
  have hlt : i < t.width := by
    rw [← length_numbered]
    exact (List.getElem?_eq_some_iff.1 hi).1
  rw [getElem?_values_input hargs hlt, getElem?_flatten_numbered hargs hi]

/-- The value at a position. -/
def valueAt (t : Tape K) (args : List (List K)) (i : Nat) : K :=
  (t.values args).getD i Scalar.zero

/-- The values of the outputs are those at their positions. -/
theorem eval_ok_iff {args vals : List (List K)} :
    t.eval args = .ok vals ↔ args.map List.length = t.inputs.map (·.nnz) ∧
      vals = t.results.map (·.map (t.valueAt args)) := by
  have hvalue : t.valueAt args = fun i => (t.values args).getD i Scalar.zero := rfl
  rw [← show t.sideOf .input = t.inputs from rfl, ← checkShape_ok_iff, eval, hvalue]
  cases t.checkShape .input args with
  | error e => simp [bind, Except.bind]
  | ok u => simp [bind, Except.bind, pure, Except.pure, eq_comm]

theorem map_length_results (t : Tape K) :
    t.results.map List.length = t.outputs.map (·.nnz) := by
  simp only [results, List.map_map]
  exact List.map_congr_left fun m _ => List.length_map _

end Tape

end Tangent
