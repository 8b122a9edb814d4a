import Mathlib.Algebra.Order.BigOperators.Group.List
import Mathlib.Algebra.Order.Group.Nat
import Mathlib.Data.List.Nodup
import Tangent.Proofs.Loops
import Tangent.Proofs.Run
import Tangent.Proofs.Values
import Tangent.Routine.Schedule

/-!
# A scheduled tape computes what the tape computes

Slots are given back at the last use of what they hold and taken again, possibly by the very
instruction that still reads them. What has to hold between two steps is that the positions that
are still needed (`Live`) have slots of their own, none of which is free (`Scheduling.Sound`).
Then the instructions so far, run from any memory, leave the value of every live position in its
slot (`Scheduling.Holds`). One step of the scheduler keeps both (`advance_ok`), so the whole
schedule has them, and every output nonzero is live until the end, where it is written.
-/

set_option linter.unusedSectionVars false

namespace Tangent

variable {K : Type}

/-! ## Slots -/

namespace Slots

/-- The free slots are different, and below the number of slots. -/
structure Sound (s : Slots) : Prop where
  nodup : s.free.Nodup
  lt : ∀ i ∈ s.free, i < s.count

/-- What taking a slot does. -/
theorem take_spec {s : Slots} (h : s.Sound) :
    s.take.2.Sound ∧ s.take.1 < s.take.2.count ∧ s.take.1 ∉ s.take.2.free ∧
      s.take.2.free ⊆ s.free ∧ (s.take.1 ∈ s.free ∨ s.take.1 = s.count) ∧
      s.count ≤ s.take.2.count ∧ s.take.2.count ≤ s.count + 1 := by
  obtain ⟨free, count⟩ := s
  cases free with
  | nil => exact ⟨⟨by simp [take], by simp [take]⟩, by simp [take]⟩
  | cons i free =>
    have hn := List.nodup_cons.1 h.nodup
    have hlt := h.lt
    refine ⟨⟨hn.2, fun j hj => hlt j (List.mem_cons_of_mem _ hj)⟩, hlt i (by simp), hn.1,
      ?_, ?_, ?_⟩
    · exact List.subset_cons_self _ _
    · exact Or.inl (by simp [take])
    · simp [take]

theorem foldl_release (slot : Nat → Nat) :
    ∀ (done : List Nat) (s : Slots),
      done.foldl (fun s j => s.release (slot j)) s =
        { s with free := (done.map slot).reverse ++ s.free }
  | [], s => by simp
  | j :: done, s => by
    rw [List.foldl_cons, foldl_release slot done]
    simp [release]

end Slots

/-! ## Last uses -/

namespace Step

/-- The last position at which the node at position `j` is needed: the end of the steps for an
output, none for a node that nothing needs. -/
def lastUse (steps : List (Step K)) (outputs : List Nat) (j : Nat) : Option Nat :=
  if j ∈ outputs then some steps.length
  else ((steps.zipIdx.filter fun (s, _) => j ∈ s.operands).getLast?).map (·.2)

theorem pairwise_zipIdx {α : Type} (xs : List α) :
    xs.zipIdx.Pairwise (fun p q => p.2 < q.2) := by
  have h : (xs.zipIdx.map Prod.snd).Pairwise (· < ·) := by
    rw [List.zipIdx_map_snd]
    exact List.pairwise_lt_range'
  exact List.pairwise_map.1 h

/-- A position is needed at least until the last step that reads it. -/
theorem le_lastUse {steps : List (Step K)} {outputs : List Nat} {i j : Nat} {s : Step K}
    (hs : steps[i]? = some s) (hj : j ∈ s.operands) :
    ∃ l, lastUse steps outputs j = some l ∧ i ≤ l := by
  unfold lastUse
  split_ifs with ho
  · exact ⟨_, rfl, Nat.le_of_lt (List.getElem?_eq_some_iff.1 hs).1⟩
  · have hmem : (s, i) ∈ steps.zipIdx.filter (fun p => j ∈ p.1.operands) :=
      List.mem_filter.2 ⟨List.mk_mem_zipIdx_iff_getElem?.2 hs, by simpa using hj⟩
    have hsorted := (pairwise_zipIdx steps).filter (fun p => j ∈ p.1.operands)
    obtain ⟨⟨s', l⟩, hl⟩ := Option.isSome_iff_exists.1
      (List.getLast?_isSome.2 (List.ne_nil_of_mem hmem))
    refine ⟨l, by rw [hl]; rfl, ?_⟩
    obtain ⟨before, hbefore⟩ := List.getLast?_eq_some_iff.1 hl
    rw [hbefore] at hmem hsorted
    rcases List.mem_append.1 hmem with hmem | hmem
    · exact Nat.le_of_lt ((List.pairwise_append.1 hsorted).2.2 _ hmem _ (List.mem_singleton_self _))
    · obtain ⟨-, rfl⟩ := Prod.mk.inj (List.mem_singleton.1 hmem)
      exact Nat.le_refl _

theorem lastUse_of_mem {steps : List (Step K)} {outputs : List Nat} {j : Nat}
    (h : j ∈ outputs) : lastUse steps outputs j = some steps.length :=
  if_pos h

end Step

@[simp]
theorem size_noteUses (i : Nat) (last : Array (Option Nat)) (needed : List Nat) :
    (noteUses i last needed).size = last.size := by
  induction needed generalizing last with
  | nil => rfl
  | cons j needed ih => exact (ih _).trans Array.size_setIfInBounds

/-- What is noted replaces what was there. -/
theorem getElem?_noteUses {i j : Nat} {last : Array (Option Nat)} (hj : j < last.size)
    (needed : List Nat) :
    (noteUses i last needed)[j]? = if j ∈ needed then some (some i) else last[j]? := by
  induction needed generalizing last with
  | nil => rfl
  | cons k needed ih =>
    rw [noteUses, List.foldl_cons]
    refine (ih (by rwa [Array.size_setIfInBounds])).trans ?_
    rw [Array.getElem?_setIfInBounds]
    by_cases hk : k = j
    · subst hk
      simp [hj]
    · simp [hk, Ne.symm hk]

theorem size_foldl_noteUses (pairs : List (Step K × Nat)) (last : Array (Option Nat)) :
    (pairs.foldl (fun last (s, i) => noteUses i last s.operands) last).size = last.size := by
  induction pairs generalizing last with
  | nil => rfl
  | cons p pairs ih => exact (ih _).trans (size_noteUses _ _ _)

/-- After the steps, what is noted for a position is the last step that reads it. -/
theorem getElem?_foldl_noteUses (steps : List (Step K)) {n j : Nat} (hj : j < n) :
    (steps.zipIdx.foldl (fun last (s, i) => noteUses i last s.operands)
        (Array.replicate n none))[j]? =
      some (((steps.zipIdx.filter fun (s, _) => j ∈ s.operands).getLast?).map (·.2)) := by
  induction steps using List.reverseRecOn with
  | nil => simp [hj]
  | append_singleton steps s ih =>
    rw [List.zipIdx_append, List.foldl_append, List.filter_append, List.getLast?_append]
    refine (getElem?_noteUses (by rwa [size_foldl_noteUses, Array.size_replicate]) _).trans ?_
    by_cases hs : j ∈ s.operands
    · simp [hs]
    · simp [hs, ih]

/-! ## Between two steps -/

/-- Position `j` has a value before step `i` that step `i`, a later one or an output needs. -/
def Live (lastUse : Array (Option Nat)) (i j : Nat) : Prop :=
  j < i ∧ ∃ l, lastUse.getD j none = some l ∧ i ≤ l

namespace Scheduling

variable {lastUse : Array (Option Nat)} {i : Nat} {s : Scheduling K}

/-- The slot of a position, as a number. -/
def slotAt (s : Scheduling K) (j : Nat) : Nat :=
  s.slot.getD j 0

/-- Live positions have slots of their own, and none of these is free. -/
structure Sound (lastUse : Array (Option Nat)) (i : Nat) (s : Scheduling K) : Prop where
  slots : s.slots.Sound
  size : s.slot.size = i
  count_le : s.slots.count ≤ i
  lt : ∀ j, Live lastUse i j → s.slotAt j < s.slots.count
  not_free : ∀ j, Live lastUse i j → s.slotAt j ∉ s.slots.free
  inj : ∀ j k, Live lastUse i j → Live lastUse i k → s.slotAt j = s.slotAt k → j = k
  /-- Nothing is written to the outputs yet. -/
  silent : ∀ instr ∈ s.body.toList, instr.place? = none

/-- The slots after those of some positions are free again. -/
def freed (s : Scheduling K) (done : List Nat) : Slots :=
  { s.slots with free := (done.map s.slotAt).reverse ++ s.slots.free }

theorem emit_eq (s : Scheduling K) (done : List Nat) (instr : Int64 → Instr K) :
    s.emit done instr =
      { slots := (s.freed done).take.2
        slot := s.slot.push (s.freed done).take.1
        body := s.body.push (instr (Int64.ofNat (s.freed done).take.1)) } := by
  have h := Slots.foldl_release s.slotAt done s.slots
  simp only [emit, freed, ← h]
  rfl

theorem slotAt_emit_lt (done : List Nat) (instr : Int64 → Instr K) {j : Nat}
    (h : j < s.slot.size) : (s.emit done instr).slotAt j = s.slotAt j := by
  simp [emit_eq, slotAt, Array.getElem?_push_lt h, Array.getElem?_eq_getElem h]

theorem slotAt_emit_size (done : List Nat) (instr : Int64 → Instr K) :
    (s.emit done instr).slotAt s.slot.size = (s.freed done).take.1 := by
  simp [emit_eq, slotAt]

theorem slotAt_skip_lt {j : Nat} (h : j < s.slot.size) : s.skip.slotAt j = s.slotAt j := by
  simp [skip, slotAt, Array.getElem?_push_lt h, Array.getElem?_eq_getElem h]

theorem Sound.freed (h : s.Sound lastUse i) {done : List Nat} (hd : done.Nodup)
    (hdone : ∀ j ∈ done, Live lastUse i j) : (s.freed done).Sound where
  nodup := by
    refine List.nodup_append.2 ⟨?_, h.slots.nodup, ?_⟩
    · rw [List.nodup_reverse]
      exact List.Nodup.map_on (fun j hj k hk => h.inj j k (hdone j hj) (hdone k hk)) hd
    · rintro a ha b hb rfl
      obtain ⟨j, hj, rfl⟩ := List.mem_map.1 (List.mem_reverse.1 ha)
      exact h.not_free j (hdone j hj) hb
  lt := by
    intro k hk
    rcases List.mem_append.1 hk with hk | hk
    · obtain ⟨j, hj, rfl⟩ := List.mem_map.1 (List.mem_reverse.1 hk)
      exact h.lt j (hdone j hj)
    · exact h.slots.lt k hk

/-- What is live after step `i` was live before it and is not done, or is step `i` itself. -/
theorem live_succ {j : Nat} (h : Live lastUse (i + 1) j) :
    j = i ∨ Live lastUse i j ∧ lastUse.getD j none ≠ some i := by
  obtain ⟨hj, l, hl, hle⟩ := h
  rcases Nat.lt_succ_iff_lt_or_eq.1 hj with hj | rfl
  · refine Or.inr ⟨⟨hj, l, hl, by omega⟩, ?_⟩
    rw [hl]
    intro he
    have := Option.some.inj he
    omega
  · exact Or.inl rfl

/-- If nothing needs position `i`, what is live after it was live before. -/
theorem live_of_succ {j : Nat} (hi : lastUse.getD i none = none) (h : Live lastUse (i + 1) j) :
    Live lastUse i j := by
  rcases live_succ h with rfl | ⟨hj, -⟩
  · obtain ⟨-, l, hl, -⟩ := h
    rw [hi] at hl
    cases hl
  · exact hj

/-- A slot that is still needed is not among the slots that are free. -/
theorem Sound.not_mem_freed (h : s.Sound lastUse i) {done : List Nat}
    (hdone : ∀ j ∈ done, Live lastUse i j) (hend : ∀ j ∈ done, lastUse.getD j none = some i)
    {j : Nat} (hj : Live lastUse i j) (hne : lastUse.getD j none ≠ some i) :
    s.slotAt j ∉ (s.freed done).free := by
  intro hmem
  rcases List.mem_append.1 hmem with hmem | hmem
  · obtain ⟨k, hk, hkj⟩ := List.mem_map.1 (List.mem_reverse.1 hmem)
    obtain rfl := h.inj k j (hdone k hk) hj hkj
    exact hne (hend k hk)
  · exact h.not_free j hj hmem

/-- A slot that is still needed is not taken. -/
theorem Sound.slotAt_ne_take (h : s.Sound lastUse i) {done : List Nat} (hd : done.Nodup)
    (hdone : ∀ j ∈ done, Live lastUse i j) (hend : ∀ j ∈ done, lastUse.getD j none = some i)
    {j : Nat} (hj : Live lastUse i j) (hne : lastUse.getD j none ≠ some i) :
    s.slotAt j ≠ (s.freed done).take.1 := by
  obtain ⟨-, -, -, -, hfrom, -⟩ := Slots.take_spec (h.freed hd hdone)
  intro he
  rcases hfrom with hf | hf
  · exact h.not_mem_freed hdone hend hj hne (he ▸ hf)
  · exact Nat.ne_of_lt (h.lt j hj) (he.trans hf)

/-- Computing a position into a slot keeps live positions apart. -/
theorem Sound.emit (h : s.Sound lastUse i) {done : List Nat} (hd : done.Nodup)
    (hdone : ∀ j ∈ done, Live lastUse i j) (hend : ∀ j ∈ done, lastUse.getD j none = some i)
    (instr : Int64 → Instr K) (hinstr : ∀ k, (instr k).place? = none) :
    (s.emit done instr).Sound lastUse (i + 1) := by
  obtain ⟨hs, hlt, hnot, hsub, -, hle, hle'⟩ := Slots.take_spec (h.freed hd hdone)
  have hcount : (s.freed done).count = s.slots.count := rfl
  have hold : ∀ j, Live lastUse i j → (s.emit done instr).slotAt j = s.slotAt j :=
    fun j hj => slotAt_emit_lt done instr (h.size ▸ hj.1)
  have hnew : (s.emit done instr).slotAt i = (s.freed done).take.1 := by
    rw [← slotAt_emit_size done instr, h.size]
  have hslots : (s.emit done instr).slots = (s.freed done).take.2 := by rw [emit_eq]
  refine ⟨hslots ▸ hs, by simp [emit_eq, h.size], ?_, ?_, ?_, ?_, ?_⟩
  · have := h.count_le
    rw [hslots]
    omega
  · intro j hj
    rw [hslots]
    rcases live_succ hj with rfl | ⟨hj, -⟩
    · rwa [hnew]
    · have := h.lt j hj
      rw [hold j hj]
      omega
  · intro j hj
    rw [hslots]
    rcases live_succ hj with rfl | ⟨hj, hne⟩
    · rwa [hnew]
    · rw [hold j hj]
      exact fun hmem => h.not_mem_freed hdone hend hj hne (hsub hmem)
  · intro j k hj hk hjk
    rcases live_succ hj with rfl | ⟨hj, hjne⟩ <;> rcases live_succ hk with rfl | ⟨hk, hkne⟩
    · rfl
    · rw [hnew, hold k hk] at hjk
      exact absurd hjk.symm (h.slotAt_ne_take hd hdone hend hk hkne)
    · rw [hnew, hold j hj] at hjk
      exact absurd hjk (h.slotAt_ne_take hd hdone hend hj hjne)
    · rw [hold j hj, hold k hk] at hjk
      exact h.inj j k hj hk hjk
  · intro x hx
    simp only [emit_eq, Array.toList_push, List.mem_append, List.mem_singleton] at hx
    rcases hx with hx | rfl
    · exact h.silent x hx
    · exact hinstr _

/-- Leaving a position out that nothing needs keeps live positions apart. -/
theorem Sound.skip (h : s.Sound lastUse i) (hi : lastUse.getD i none = none) :
    s.skip.Sound lastUse (i + 1) := by
  have hlive : ∀ j, Live lastUse (i + 1) j → Live lastUse i j := fun j => live_of_succ hi
  have hold : ∀ j, Live lastUse i j → s.skip.slotAt j = s.slotAt j := fun j hj =>
    slotAt_skip_lt (h.size ▸ hj.1)
  refine ⟨h.slots, by simp [Scheduling.skip, h.size], Nat.le_succ_of_le h.count_le, ?_, ?_, ?_,
    h.silent⟩
  · intro j hj
    rw [hold j (hlive j hj)]
    exact h.lt j (hlive j hj)
  · intro j hj
    rw [hold j (hlive j hj)]
    exact h.not_free j (hlive j hj)
  · intro j k hj hk hjk
    rw [hold j (hlive j hj), hold k (hlive k hk)] at hjk
    exact h.inj j k (hlive j hj) (hlive k hk) hjk

/-! ## What the instructions compute -/

variable [Scalar K] {args : List (List K)} {value : Nat → K}

/-- The memory holds the values of the live positions in their slots. -/
def Keeps (value : Nat → K) (lastUse : Array (Option Nat)) (i : Nat) (s : Scheduling K)
    (m : Memory K) : Prop :=
  ∀ j, Live lastUse i j → m.slots[s.slotAt j]? = some (value j)

/-- Run from any memory with enough slots, the instructions so far leave the values of the live
positions in their slots, and touch no result. -/
def Holds (args : List (List K)) (value : Nat → K) (lastUse : Array (Option Nat)) (i : Nat)
    (s : Scheduling K) : Prop :=
  ∀ m : Memory K, s.slots.count ≤ m.slots.size →
    ∃ m', Instr.runAll? args s.body.toList m = some m' ∧ m'.results = m.results ∧
      m'.slots.size = m.slots.size ∧ s.Keeps value lastUse i m'

/-- The instruction computes the value of position `i` into any slot. -/
def Computes (args : List (List K)) (value : Nat → K) (lastUse : Array (Option Nat)) (i : Nat)
    (s : Scheduling K) (instr : Int64 → Instr K) : Prop :=
  ∀ m : Memory K, s.Keeps value lastUse i m → ∀ k, k < m.slots.size → k < 2 ^ 63 →
    Instr.run? args m (instr (Int64.ofNat k)) =
      some { m with slots := m.slots.setIfInBounds k (value i) }

theorem Holds.emit (hs : s.Sound lastUse i) (hi : i < 2 ^ 63) {done : List Nat} (hd : done.Nodup)
    (hdone : ∀ j ∈ done, Live lastUse i j) (hend : ∀ j ∈ done, lastUse.getD j none = some i)
    {instr : Int64 → Instr K} (hinstr : s.Computes args value lastUse i instr)
    (h : s.Holds args value lastUse i) :
    (s.emit done instr).Holds args value lastUse (i + 1) := by
  obtain ⟨-, hlt, -, -, -, hle, hle'⟩ := Slots.take_spec (hs.freed hd hdone)
  have hcount : (s.freed done).count = s.slots.count := rfl
  have hslots : (s.emit done instr).slots = (s.freed done).take.2 := by rw [emit_eq]
  intro m hm
  rw [hslots] at hm
  obtain ⟨m', hrun, hres, hsize, hkeep⟩ := h m (by omega)
  have hk : (s.freed done).take.1 < m'.slots.size := by omega
  have hk' : (s.freed done).take.1 < 2 ^ 63 := by
    have := hs.count_le
    omega
  refine ⟨{ m' with slots := m'.slots.setIfInBounds (s.freed done).take.1 (value i) }, ?_, hres,
    by simpa using hsize, ?_⟩
  · rw [emit_eq, Array.toList_push, Instr.runAll?_append, hrun, Option.bind_some]
    simp only [Instr.runAll?, List.foldlM_cons, hinstr m' hkeep _ hk hk', List.foldlM_nil]
    rfl
  · intro j hj
    rcases live_succ hj with rfl | ⟨hj, hne⟩
    · rw [← hs.size, slotAt_emit_size, Array.getElem?_setIfInBounds_self_of_lt hk, hs.size]
    · rw [slotAt_emit_lt done instr (hs.size ▸ hj.1), Array.getElem?_setIfInBounds_ne
        (hs.slotAt_ne_take hd hdone hend hj hne).symm]
      exact hkeep j hj

theorem Holds.skip (hs : s.Sound lastUse i) (hi : lastUse.getD i none = none)
    (h : s.Holds args value lastUse i) : s.skip.Holds args value lastUse (i + 1) := by
  intro m hm
  obtain ⟨m', hrun, hres, hsize, hkeep⟩ := h m hm
  refine ⟨m', hrun, hres, hsize, fun j hj => ?_⟩
  have hj := live_of_succ hi hj
  rw [slotAt_skip_lt (hs.size ▸ hj.1)]
  exact hkeep j hj

end Scheduling

/-! ## One step of the scheduler -/

namespace Tape

variable {t : Tape K}

theorem size_lastUses (t : Tape K) : t.lastUses.size = t.nodes.length := by
  rw [lastUses, size_noteUses, size_foldl_noteUses, Array.size_replicate]

/-- The loops note the last use of every position. -/
theorem getD_lastUses {j : Nat} (h : j < t.steps.length) :
    t.lastUses.getD j none = Step.lastUse t.steps t.results.flatten j := by
  rw [length_steps] at h
  have hlast := getElem?_foldl_noteUses t.steps h
  have hlt := (Array.getElem?_eq_some_iff.1 hlast).1
  rw [Array.getD_eq_getD_getElem?, lastUses, getElem?_noteUses hlt, hlast, Step.lastUse,
    length_steps]
  split_ifs <;> rfl

/-- What a step reads is live before it. -/
theorem Layout.live_operand {openEnded : Bool} (h : t.Layout openEnded) {i j : Nat} {step : Step K}
    (hs : t.steps[i]? = some step) (hj : j ∈ step.operands) : Live t.lastUses i j := by
  have hlt := h.operand_lt hs hj
  have hi := (List.getElem?_eq_some_iff.1 hs).1
  refine ⟨hlt, ?_⟩
  rw [getD_lastUses (by omega)]
  exact Step.le_lastUse hs hj

/-- Outputs are live at the end. -/
theorem Layout.live_result {openEnded : Bool} (h : t.Layout openEnded) {j : Nat}
    (hj : j ∈ t.results.flatten) : Live t.lastUses t.steps.length j := by
  have hlt := h.result_lt hj
  refine ⟨hlt, t.steps.length, ?_, Nat.le_refl _⟩
  rw [getD_lastUses hlt, Step.lastUse_of_mem hj]

/-- A symbol on a closed tape is an input nonzero. -/
theorem Layout.exists_numbered (h : t.Layout false) {i : Nat} {name : String}
    (hs : t.steps[i]? = some (.symbol name)) : ∃ p, (numbered t.inputs)[i]? = some p := by
  refine ⟨_, List.getElem?_eq_getElem (?_ : i < _)⟩
  rw [length_numbered]
  by_contra hi
  simp only [steps, List.getElem?_map, Option.map_eq_some_iff] at hs
  obtain ⟨n, hn, hstep⟩ := hs
  have hmem : n ∈ t.nodes.drop t.width := by
    refine List.mem_of_getElem? (i := i - t.width) ?_
    rw [List.getElem?_drop, Nat.add_sub_cancel' (by omega), hn]
  have hsym := h.rest n hmem
  cases n <;> simp_all [stepOf, Node.isSymbol, Node.name?]

variable [Scalar K]

theorem Layout.size_values {openEnded : Bool} (h : t.Layout openEnded) {args : List (List K)}
    (hargs : args.map List.length = t.inputs.map (·.nnz)) :
    (t.values args).size = t.steps.length := by
  have := h.width_le
  rw [values, Step.size_evalAll, List.size_toArray, length_flatten_args hargs, List.length_drop,
    length_steps]
  omega

/-- The nodes of a tape, its arguments and their nonzeros can be numbered by machine integers. -/
structure Addressable (t : Tape K) : Prop where
  nodes : t.nodes.length < 2 ^ 63
  inputs : t.inputs.length < 2 ^ 63
  outputs : t.outputs.length < 2 ^ 63
  nonzeros : ∀ m ∈ t.outputs, m.nnz < 2 ^ 63

section Computes

variable {args : List (List K)} {s : Scheduling K} {i : Nat}

theorem Layout.valueAt_step (h : t.Layout false)
    (hargs : args.map List.length = t.inputs.map (·.nnz)) {step : Step K}
    (hstep : t.steps[i]? = some step) (hno : ∀ name, step ≠ .symbol name) :
    t.valueAt args i = step.eval (t.values args) := by
  refine h.getD_values_step hargs ?_ hstep
  by_contra hi
  simp only [steps, List.getElem?_map, Option.map_eq_some_iff] at hstep
  obtain ⟨n, hn, rfl⟩ := hstep
  have hmem : n ∈ nonzerosOf t.inputs := by
    rw [← h.take_width]
    exact List.mem_of_getElem? ((List.getElem?_take_of_lt (Nat.not_le.1 hi)).trans hn)
  have hsym := h.symbols n hmem
  cases n <;> simp_all [stepOf, Node.isSymbol, Node.name?]

/-- A live position can be read from its slot. -/
theorem read?_slotOf (hs : s.Sound t.lastUses i) (hi : i < 2 ^ 63) {m : Memory K}
    (hm : s.Keeps (t.valueAt args) t.lastUses i m) {j : Nat} (hj : Live t.lastUses i j) :
    m.read? (s.slotOf j) = some (t.valueAt args j) := by
  have hlt := hs.lt j hj
  have hle := hs.count_le
  have : s.slotOf j = Int64.ofNat (s.slotAt j) := rfl
  rw [this, Memory.read?_ofNat m (by omega)]
  exact hm j hj

theorem Layout.computes_input (h : t.Layout false) (ht : t.Addressable)
    (hargs : args.map List.length = t.inputs.map (·.nnz)) {a k : Nat} {n : Node K}
    (hn : (numbered t.inputs)[i]? = some (a, k, n)) :
    s.Computes args (t.valueAt args) t.lastUses i
      (.input · (Int64.ofNat a) (Int64.ofNat k)) := by
  intro m _ slot hlt hslot
  obtain ⟨mat, hmat, hk, hp⟩ := getElem?_numbered hn
  have halt : a < 2 ^ 63 := Nat.lt_trans (List.getElem?_eq_some_iff.1 hmat).1 ht.inputs
  have hi : i < t.nodes.length := by
    have hlt := (List.getElem?_eq_some_iff.1 hn).1
    rw [length_numbered] at hlt
    exact Nat.lt_of_lt_of_le hlt h.width_le
  have hklt : k < 2 ^ 63 := by
    have := ht.nodes
    omega
  have hin : i < (t.values args).size := by rwa [h.size_values hargs, length_steps]
  have hval := getElem?_values_numbered hargs hn
  rw [Array.getElem?_eq_getElem hin] at hval
  obtain ⟨row, hrow, hv⟩ := Option.bind_eq_some_iff.1 hval.symm
  have hvalue : t.valueAt args i = (t.values args)[i] := by simp [valueAt, hin]
  simp only [Instr.run?, index?_ofNat halt, index?_ofNat hklt, Option.bind_some, hrow, hv,
    Option.bind_eq_bind, hvalue, m.write?_ofNat hslot hlt]

theorem Layout.computes_const (h : t.Layout false)
    (hargs : args.map List.length = t.inputs.map (·.nnz)) {v : K}
    (hstep : t.steps[i]? = some (.const v)) :
    s.Computes args (t.valueAt args) t.lastUses i (.const · v) := by
  intro m _ slot hlt hslot
  have hvalue : t.valueAt args i = v := h.valueAt_step hargs hstep (by simp)
  rw [Instr.run?, m.write?_ofNat hslot hlt, hvalue]

theorem Layout.computes_unary (h : t.Layout false)
    (hargs : args.map List.length = t.inputs.map (·.nnz)) (hs : s.Sound t.lastUses i)
    (hi : i < 2 ^ 63) {u : Unary} {x : Nat} (hstep : t.steps[i]? = some (.unary u x)) :
    s.Computes args (t.valueAt args) t.lastUses i
      (.apply (Opcode.ofOp (.unary u)) · (s.slotOf x) 0) := by
  intro m hm slot hlt hslot
  have hx := read?_slotOf hs hi hm (h.live_operand hstep (j := x) (by simp [Step.operands]))
  have h0 : m.read? 0 = some m.slots[0] := by
    have := m.read?_ofNat (i := 0) (by decide)
    rwa [Array.getElem?_eq_getElem (by omega)] at this
  have hvalue : t.valueAt args i = Scalar.unary u (t.valueAt args x) :=
    h.valueAt_step hargs hstep (by simp)
  simp only [Instr.run?, hx, h0, Option.bind_eq_bind, Option.bind_some, Opcode.eval?,
    Opcode.op?_ofOp, m.write?_ofNat hslot hlt, hvalue]

theorem Layout.computes_binary (h : t.Layout false)
    (hargs : args.map List.length = t.inputs.map (·.nnz)) (hs : s.Sound t.lastUses i)
    (hi : i < 2 ^ 63) {b : Binary} {x y : Nat} (hstep : t.steps[i]? = some (.binary b x y)) :
    s.Computes args (t.valueAt args) t.lastUses i
      (.apply (Opcode.ofOp (.binary b)) · (s.slotOf x) (s.slotOf y)) := by
  intro m hm slot hlt hslot
  have hx := read?_slotOf hs hi hm (h.live_operand hstep (j := x) (by simp [Step.operands]))
  have hy := read?_slotOf hs hi hm (h.live_operand hstep (j := y) (by simp [Step.operands]))
  have hvalue : t.valueAt args i = Scalar.binary b (t.valueAt args x) (t.valueAt args y) :=
    h.valueAt_step hargs hstep (by simp)
  simp only [Instr.run?, hx, hy, Option.bind_eq_bind, Option.bind_some, Opcode.eval?,
    Opcode.op?_ofOp, m.write?_ofNat hslot hlt, hvalue]

end Computes

/-- Computing position `i` into a slot, once those operands are given back that step `i` is the
last to read, keeps live positions apart and their values in the slots. -/
theorem Layout.emit_ok (h : t.Layout false) {i : Nat} (hi : i < 2 ^ 63) {step : Step K}
    (hstep : t.steps[i]? = some step) {s : Scheduling K} (hs : s.Sound t.lastUses i)
    {operands : List Nat} (hd : operands.Nodup) (hsub : ∀ j ∈ operands, j ∈ step.operands)
    {instr : Int64 → Instr K} (hplace : ∀ k, (instr k).place? = none)
    (hcomp : ∀ args : List (List K), args.map List.length = t.inputs.map (·.nnz) →
      s.Computes args (t.valueAt args) t.lastUses i instr) :
    (s.emit (operands.filter fun j => t.lastUses.getD j none == some i) instr).Sound
        t.lastUses (i + 1) ∧
      ∀ args : List (List K), args.map List.length = t.inputs.map (·.nnz) →
        s.Holds args (t.valueAt args) t.lastUses i →
        (s.emit (operands.filter fun j => t.lastUses.getD j none == some i) instr).Holds
          args (t.valueAt args) t.lastUses (i + 1) := by
  set done := operands.filter fun j => t.lastUses.getD j none == some i with hdone
  have hlive : ∀ j ∈ done, Live t.lastUses i j := fun j hj =>
    h.live_operand hstep (hsub j (List.mem_filter.1 hj).1)
  have hend : ∀ j ∈ done, t.lastUses.getD j none = some i := fun j hj => by
    simpa using (List.mem_filter.1 hj).2
  exact ⟨hs.emit (hd.filter _) hlive hend instr hplace,
    fun args hargs hh => hh.emit hs hi (hd.filter _) hlive hend (hcomp args hargs)⟩

/-- One step of the scheduler chooses an instruction that computes the next position, and keeps
live positions apart. -/
theorem Layout.advance_ok (h : t.Layout false) (ht : t.Addressable) {i : Nat}
    {step : Step K} (hstep : t.steps[i]? = some step) {s : Scheduling K}
    (hs : s.Sound t.lastUses i) :
    ∃ s', Scheduling.advance t t.lastUses s (step, i) = .ok s' ∧ s'.Sound t.lastUses (i + 1) ∧
      ∀ args : List (List K), args.map List.length = t.inputs.map (·.nnz) →
        s.Holds args (t.valueAt args) t.lastUses i →
        s'.Holds args (t.valueAt args) t.lastUses (i + 1) := by
  have hi : i < 2 ^ 63 := by
    have hlt := (List.getElem?_eq_some_iff.1 hstep).1
    rw [length_steps] at hlt
    exact Nat.lt_trans hlt ht.nodes
  simp only [Scheduling.advance]
  cases huse : t.lastUses.getD i none with
  | none =>
    rw [if_pos (by rfl)]
    exact ⟨s.skip, rfl, hs.skip huse, fun args _ hh => hh.skip hs huse⟩
  | some l =>
    rw [if_neg (by simp)]
    cases step with
    | symbol name =>
      obtain ⟨⟨a, k, n⟩, hn⟩ := h.exists_numbered hstep
      rw [hn]
      exact ⟨_, rfl, h.emit_ok hi hstep hs List.nodup_nil (by simp) (fun _ => rfl)
        fun args hargs => h.computes_input ht hargs hn⟩
    | const v =>
      exact ⟨_, rfl, h.emit_ok hi hstep hs List.nodup_nil (by simp) (fun _ => rfl)
        fun args hargs => h.computes_const hargs hstep⟩
    | unary u x =>
      exact ⟨_, rfl, h.emit_ok hi hstep hs (List.nodup_singleton x) (by simp [Step.operands])
        (fun _ => rfl) fun args hargs => h.computes_unary hargs hs hi hstep⟩
    | binary b x y =>
      refine ⟨_, rfl, h.emit_ok hi hstep hs ?_ ?_ (fun _ => rfl)
        fun args hargs => h.computes_binary hargs hs hi hstep⟩
      · split_ifs with hxy <;> simp [hxy]
      · split_ifs with hxy <;> simp [Step.operands]

/-! ## The whole schedule -/

theorem Layout.exists_scheduling (h : t.Layout false) (ht : t.Addressable) :
    ∃ s, t.steps.zipIdx.foldlM (Scheduling.advance t t.lastUses) {} = .ok s ∧
      s.Sound t.lastUses t.steps.length ∧
      ∀ args : List (List K), args.map List.length = t.inputs.map (·.nnz) →
        s.Holds args (t.valueAt args) t.lastUses t.steps.length := by
  have hlive : ∀ j, ¬Live t.lastUses 0 j := fun j hj => Nat.not_lt_zero j hj.1
  have hstart : ({} : Scheduling K).Sound t.lastUses 0 :=
    ⟨⟨List.nodup_nil, by simp⟩, rfl, Nat.le_refl 0, fun j hj => absurd hj (hlive j),
      fun j hj => absurd hj (hlive j), fun j k hj => absurd hj (hlive j), by simp⟩
  refine Ends.exists_ok (Ends.foldlM_zipIdx (P := fun i (s : Scheduling K) => s.Sound t.lastUses i ∧
    ∀ args : List (List K), args.map List.length = t.inputs.map (·.nnz) →
      s.Holds args (t.valueAt args) t.lastUses i) ?_ fun i step s hstep hs => ?_)
  · exact ⟨hstart, fun args _ m _ => ⟨m, rfl, rfl, rfl, fun j hj => absurd hj (hlive j)⟩⟩
  · obtain ⟨s', hs', hsound, hholds⟩ := h.advance_ok ht hstep hs.1
    exact .of_exists ⟨s', hs', hsound, fun args hargs => hholds args hargs (hs.2 args hargs)⟩

/-! ## Writing the outputs -/

section Outputs

variable (args : List (List K)) (value : Nat → K) (slot : Nat → Int64)

/-- Writing one output from left to right. -/
theorem runAll?_row {i : Nat} (hi : i < 2 ^ 63) :
    ∀ (positions : List Nat) (o : Nat) (m : Memory K) {row : List K}, m.results[i]? = some row →
      row.length = o + positions.length → row.length < 2 ^ 63 →
      (∀ j ∈ positions, m.read? (slot j) = some (value j)) →
      Instr.runAll? args ((positions.zipIdx o).map fun (j, k) =>
          .output (Int64.ofNat i) (Int64.ofNat k) (slot j)) m =
        some { m with results := m.results.set i (row.take o ++ positions.map value) }
  | [], o, m, row, hrow, hlen, _, _ => by
    have hset : m.results.set i row = m.results := by
      obtain ⟨hlt, rfl⟩ := List.getElem?_eq_some_iff.1 hrow
      exact List.set_getElem_self hlt
    have htake : row.take o = row := List.take_of_length_le (by simp at hlen; omega)
    simp [Instr.runAll?, htake, hset]
  | j :: positions, o, m, row, hrow, hlen, hlt, hread => by
    rw [List.length_cons] at hlen
    have hilt := (List.getElem?_eq_some_iff.1 hrow).1
    have hrun : Instr.run? args m (.output (Int64.ofNat i) (Int64.ofNat o) (slot j)) =
        some { m with results := m.results.set i (row.set o (value j)) } := by
      simp only [Instr.run?, hread j List.mem_cons_self, Option.bind_eq_bind, Option.bind_some]
      exact m.store?_ofNat hi (by omega) hrow (by omega) _
    have hnew : (m.results.set i (row.set o (value j)))[i]? = some (row.set o (value j)) := by
      simp [hilt]
    have ih := runAll?_row hi positions (o + 1)
      { m with results := m.results.set i (row.set o (value j)) } hnew (by simp; omega)
      (by simpa using hlt) fun k hk => hread k (List.mem_cons_of_mem _ hk)
    have htake : (row.set o (value j)).take (o + 1) = row.take o ++ [value j] := by
      rw [List.take_add_one, List.take_set_of_le (Nat.le_refl o)]
      simp [show o < row.length by omega]
    rw [htake, List.set_set] at ih
    rw [List.zipIdx_cons, List.map_cons, Instr.runAll?, List.foldlM_cons, hrun]
    simpa [Instr.runAll?] using ih

/-- Writing one output after the other. -/
theorem runAll?_rows :
    ∀ (rows : List (List Nat)) (o : Nat) (m : Memory K),
      (m.results.map List.length).drop o = rows.map List.length → o + rows.length < 2 ^ 63 →
      (∀ r ∈ rows, r.length < 2 ^ 63) →
      (∀ r ∈ rows, ∀ j ∈ r, m.read? (slot j) = some (value j)) →
      Instr.runAll? args ((rows.zipIdx o).flatMap fun (positions, i) =>
          positions.zipIdx.map fun (j, k) =>
            .output (Int64.ofNat i) (Int64.ofNat k) (slot j)) m =
        some { m with results := m.results.take o ++ rows.map (·.map value) }
  | [], o, m, hshape, _, _, _ => by
    have htake : m.results.take o = m.results := by
      refine List.take_of_length_le ?_
      simpa using List.drop_eq_nil_iff.1 hshape
    simp [Instr.runAll?, htake]
  | r :: rows, o, m, hshape, hlen, hrows, hread => by
    have hget := congrArg (·[0]?) hshape
    simp only [List.getElem?_drop, Nat.add_zero, List.getElem?_map, List.map_cons,
      List.getElem?_cons_zero, Option.map_eq_some_iff] at hget
    obtain ⟨row, hrow, hrlen⟩ := hget
    have holt := (List.getElem?_eq_some_iff.1 hrow).1
    have hr := hrows r List.mem_cons_self
    rw [List.length_cons] at hlen
    have hfirst := runAll?_row args value slot (i := o) (by omega) r 0 m hrow (by omega)
      (by omega) (hread r List.mem_cons_self)
    rw [List.take_zero, List.nil_append] at hfirst
    have ih := runAll?_rows rows (o + 1) { m with results := m.results.set o (r.map value) }
      (by
        have := congrArg List.tail hshape
        rw [List.tail_drop] at this
        simpa [List.map_set, List.drop_set_of_lt] using this)
      (by omega) (fun q hq => hrows q (List.mem_cons_of_mem _ hq))
      fun q hq => hread q (List.mem_cons_of_mem _ hq)
    have htake : (m.results.set o (r.map value)).take (o + 1) =
        m.results.take o ++ [r.map value] := by
      rw [List.take_add_one, List.take_set_of_le (Nat.le_refl o)]
      simp [holt]
    rw [htake] at ih
    rw [List.zipIdx_cons, List.flatMap_cons, Instr.runAll?_append, hfirst, Option.bind_some, ih]
    simp

end Outputs

/-! ## Every output nonzero is written once -/

theorem ofNat_inj {m n : Nat} (hm : m < 2 ^ 63) (hn : n < 2 ^ 63)
    (h : Int64.ofNat m = Int64.ofNat n) : m = n := by
  rw [← Int64.toNatClampNeg_ofNat_of_lt hm, h, Int64.toNatClampNeg_ofNat_of_lt hn]

theorem places_outputInstrs (s : Scheduling K) :
    (t.outputInstrs s).filterMap Instr.place? =
      t.results.zipIdx.flatMap fun p =>
        p.1.zipIdx.map fun q => (Int64.ofNat p.2, Int64.ofNat q.2) := by
  rw [outputInstrs, List.filterMap_flatMap]
  simp only [List.filterMap_map]
  simp only [Function.comp_def, Instr.place?, List.filterMap_eq_map']

theorem nodup_places (ht : t.Addressable) (s : Scheduling K) :
    ((t.outputInstrs s).filterMap Instr.place?).Nodup := by
  have hrow : ∀ {r i}, (r, i) ∈ t.results.zipIdx → i < 2 ^ 63 ∧ r.length < 2 ^ 63 := by
    intro r i hr
    have hr := List.mk_mem_zipIdx_iff_getElem?.1 hr
    have hlt := (List.getElem?_eq_some_iff.1 hr).1
    obtain ⟨m, hm, rfl⟩ := List.mem_map.1 (List.mem_of_getElem? hr)
    rw [results, List.length_map] at hlt
    exact ⟨Nat.lt_trans hlt ht.outputs, by rw [List.length_map]; exact ht.nonzeros m hm⟩
  rw [places_outputInstrs, List.nodup_flatMap]
  constructor
  · rintro ⟨r, i⟩ hr
    refine List.pairwise_map.2 ((Step.pairwise_zipIdx r).imp_of_mem ?_)
    rintro ⟨j, k⟩ ⟨j', k'⟩ hk hk' hlt he
    have hk := (List.getElem?_eq_some_iff.1 (List.mk_mem_zipIdx_iff_getElem?.1 hk)).1
    have hk' := (List.getElem?_eq_some_iff.1 (List.mk_mem_zipIdx_iff_getElem?.1 hk')).1
    have := (hrow hr).2
    have := ofNat_inj (by omega) (by omega) (Prod.mk.inj he).2
    simp only at hlt
    omega
  · refine (Step.pairwise_zipIdx t.results).imp_of_mem ?_
    rintro ⟨r, i⟩ ⟨r', i'⟩ hr hr' hlt x hx hx'
    obtain ⟨q, -, rfl⟩ := List.mem_map.1 hx
    obtain ⟨q', -, he⟩ := List.mem_map.1 hx'
    have := ofNat_inj (hrow hr').1 (hrow hr).1 (Prod.mk.inj he).1
    simp only at hlt
    omega

theorem mem_places {i k : Nat} {m : SparseMatrix K} (hm : t.outputs[i]? = some m) (hk : k < m.nnz)
    (s : Scheduling K) :
    (Int64.ofNat i, Int64.ofNat k) ∈ (t.outputInstrs s).filterMap Instr.place? := by
  have hk' : k < (m.nonzeros.map t.position).length := by rwa [List.length_map]
  rw [places_outputInstrs, List.mem_flatMap]
  refine ⟨(m.nonzeros.map t.position, i), ?_,
    List.mem_map.2 ⟨((m.nonzeros.map t.position)[k], k), ?_, rfl⟩⟩
  · rw [List.mk_mem_zipIdx_iff_getElem?, results, List.getElem?_map, hm]
    rfl
  · rw [List.mk_mem_zipIdx_iff_getElem?, List.getElem?_eq_getElem hk']

/-! ## The routine -/

/-- The instructions for the nodes and then those for the outputs leave the values of the outputs
in the results. -/
theorem Layout.exists_run (h : t.Layout false) (ht : t.Addressable) {s : Scheduling K}
    (hs : s.Sound t.lastUses t.steps.length) {args : List (List K)}
    (hh : s.Holds args (t.valueAt args) t.lastUses t.steps.length) {m : Memory K}
    (hslots : s.slots.count ≤ m.slots.size)
    (hres : m.results.map List.length = t.outputs.map (·.nnz)) :
    ∃ m', Instr.runAll? args (s.body.toList ++ t.outputInstrs s) m = some m' ∧
      m'.results = t.results.map (·.map (t.valueAt args)) := by
  have hlen : t.steps.length < 2 ^ 63 := by
    rw [length_steps]
    exact ht.nodes
  obtain ⟨m', hrun, hsame, -, hkeep⟩ := hh m hslots
  have hrows := runAll?_rows args (t.valueAt args) s.slotOf t.results 0 m'
    (by rw [List.drop_zero, hsame, hres, map_length_results])
    (by simpa [results] using ht.outputs)
    (by
      intro r hr
      obtain ⟨mat, hmat, rfl⟩ := List.mem_map.1 hr
      rw [List.length_map]
      exact ht.nonzeros mat hmat)
    fun r hr j hj => read?_slotOf hs hlen hkeep (h.live_result (List.mem_flatten.2 ⟨r, hr, hj⟩))
  rw [List.take_zero, List.nil_append] at hrows
  exact ⟨_, by rw [Instr.runAll?_append, hrun, Option.bind_some]; exact hrows, rfl⟩

theorem Addressable.count_lt (ht : t.Addressable) {s : Scheduling K}
    (hs : s.Sound t.lastUses t.steps.length) : s.slots.count < 2 ^ 63 := by
  have hle := hs.count_le
  rw [length_steps] at hle
  exact hle.trans_lt ht.nodes

/-- The routine that a finished scheduling gives. -/
def routineOf (t : Tape K) (s : Scheduling K) : Routine K where
  name := t.name
  inputs := t.inputs.map (some ·.sp)
  outputs := t.outputs.map (some ·.sp)
  scalars := Int64.ofNat s.slots.count
  work := 0
  iwork := 0
  body := s.body.toList ++ t.outputInstrs s

omit [Scalar K] in
theorem schedule_eq (t : Tape K) :
    t.schedule = (t.steps.zipIdx.foldlM (Scheduling.advance t t.lastUses) {}).bind fun s =>
      (t.routineOf s).validate.bind fun _ => .ok (t.routineOf s) :=
  rfl

theorem nonzeros_eq (matrices : List (SparseMatrix K)) (h : ∀ m ∈ matrices, m.Filled) :
    (matrices.map (some ·.sp)).map (Routine.nonzeros [·]) = matrices.map (·.nnz) := by
  rw [List.map_map]
  refine List.map_congr_left fun m hm => ?_
  simpa [Routine.nonzeros, SparseMatrix.pattern] using (h m hm).symm

theorem Layout.addressable_routineOf (h : t.Layout false) (ht : t.Addressable)
    (hin : ∀ m ∈ t.inputs, m.Filled) (hout : ∀ m ∈ t.outputs, m.Filled) (s : Scheduling K) :
    (t.routineOf s).Addressable where
  inputs := by simpa [routineOf] using ht.inputs
  outputs := by simpa [routineOf] using ht.outputs
  inputNonzeros := by
    intro sp hsp
    have hmem := List.mem_map_of_mem (f := (Routine.nonzeros [·])) hsp
    rw [routineOf, nonzeros_eq t.inputs hin] at hmem
    have hle : _ ≤ t.width := List.le_sum_of_mem hmem
    have := ht.nodes
    have := h.width_le
    omega
  outputNonzeros := by
    intro sp hsp
    have hmem := List.mem_map_of_mem (f := (Routine.nonzeros [·])) hsp
    rw [routineOf, nonzeros_eq t.outputs hout] at hmem
    obtain ⟨m, hm, he⟩ := List.mem_map.1 hmem
    exact he ▸ ht.nonzeros m hm

/-- The routine passes the checks : it runs to its end when all arguments are zero. -/
theorem Layout.validate_routineOf (h : t.Layout false) (ht : t.Addressable)
    (hname : isIdentifier t.name) (hin : ∀ m ∈ t.inputs, m.Filled)
    (hout : ∀ m ∈ t.outputs, m.Filled) {s : Scheduling K}
    (hs : s.Sound t.lastUses t.steps.length)
    (hh : ∀ args : List (List K), args.map List.length = t.inputs.map (·.nnz) →
      s.Holds args (t.valueAt args) t.lastUses t.steps.length) :
    (t.routineOf s).validate = .ok () := by
  let rows (matrices : List (SparseMatrix K)) := matrices.map fun m => List.replicate m.nnz
    (Scalar.zero : K)
  have hrows : ∀ matrices, (rows matrices).map List.length = matrices.map (·.nnz) := by
    simp [rows]
  let m : Memory K := ⟨Array.replicate s.slots.count Scalar.zero, rows t.outputs⟩
  obtain ⟨m', hrun, -⟩ := h.exists_run ht hs (hh (rows t.inputs) (hrows _)) (m := m)
    (by simp [m]) (hrows _)
  have hcount := ht.count_lt hs
  refine Routine.validate_of_runAll? hname ?_ ?_ (h.addressable_routineOf ht hin hout s) ?_ hrun
  · simp [routineOf]
  · simp [routineOf]
  · refine ⟨?_, ?_, ?_⟩
    · simp [m, routineOf, Int64.toNatClampNeg_ofNat_of_lt hcount]
    · rw [routineOf, nonzeros_eq t.inputs hin, hrows]
    · rw [routineOf, nonzeros_eq t.outputs hout, hrows]

/-- Scheduling a closed tape with a proper name gives a routine. Run on any memory with its slots,
the routine stays within the memory and leaves what evaluation gives, and it writes every output
nonzero once. -/
theorem schedule_computes [Numeral K] {name : String} {inputs outputs : List (SparseMatrix K)}
    (h : freeze name inputs outputs = .ok t) (hname : isIdentifier name)
    (hin : ∀ m ∈ inputs, m.Filled) (hout : ∀ m ∈ outputs, m.Filled) (ht : t.Addressable) :
    ∃ r, t.schedule = .ok r ∧ 0 ≤ r.scalars ∧
      (∀ args vals, t.eval args = .ok vals → ∀ m : Memory K,
        m.slots.size = r.scalars.toNatClampNeg →
        m.results.map List.length = outputs.map (·.nnz) →
        ∃ m', Instr.runAll? args r.body m = some m' ∧ m'.results = vals) ∧
      ∀ i k mat, outputs[i]? = some mat → k < mat.nnz →
        (r.body.filterMap Instr.place?).count (Int64.ofNat i, Int64.ofNat k) = 1 := by
  have hlay := layout_of_layOut h
  obtain ⟨rfl, rfl, rfl, -⟩ := layOut_ok h
  obtain ⟨s, hfold, hs, hh⟩ := hlay.exists_scheduling ht
  have hvalid := hlay.validate_routineOf ht hname hin hout hs hh
  have hcount := ht.count_lt hs
  refine ⟨t.routineOf s, ?_, Int64.zero_le_ofNat_of_lt hcount, ?_, ?_⟩
  · rw [schedule_eq, hfold, Except.bind, hvalid]
    rfl
  · intro args vals hvals m hslots hres
    obtain ⟨hargs, rfl⟩ := eval_ok_iff.1 hvals
    refine hlay.exists_run ht hs (hh args hargs) ?_ hres
    rw [hslots, routineOf, Int64.toNatClampNeg_ofNat_of_lt hcount]
  · intro i k mat hmat hk
    have hbody : s.body.toList.filterMap Instr.place? = [] :=
      List.filterMap_eq_nil_iff.2 hs.silent
    rw [routineOf, List.filterMap_append, hbody, List.nil_append]
    exact List.count_eq_one_of_mem (nodup_places ht s) (mem_places hmat hk s)

/-- A product that is an operand twice and an output as well, next to an input that is an output. -/
def sharedProduct : Tape Float :=
  let x : Node Float := .symbol 1 "x"
  let y : Node Float := .symbol 2 "y"
  let p : Node Float := .binary 3 .mul x y
  let q : Node Float := .binary 4 .add p p
  let r : Node Float := .binary 5 .sub q x
  { name := "f"
    inputs := [.scalar x, .scalar y]
    outputs := [.scalar r, .scalar p, .scalar x]
    toOrder := .ofNodes [x, y, p, q, r] (by decide) }

theorem schedule_sharedProduct :
    freeze "f" sharedProduct.inputs sharedProduct.outputs = .ok sharedProduct ∧
      sharedProduct.Addressable ∧
      ∃ r, sharedProduct.schedule = .ok r ∧
        ∀ (x y : Float) (m : Memory Float), m.slots.size = r.scalars.toNatClampNeg →
          m.results.map List.length = [1, 1, 1] →
          ∃ m', Instr.runAll? [[x], [y]] r.body m = some m' ∧
            m'.results = [[x * y + x * y - x], [x * y], [x]] := by
  have h : freeze "f" sharedProduct.inputs sharedProduct.outputs = .ok sharedProduct := by rfl
  have ht : sharedProduct.Addressable :=
    ⟨by decide, by decide, by decide,
      by simp [sharedProduct, SparseMatrix.scalar, SparseMatrix.nnz]⟩
  obtain ⟨r, hr, -, hrun, -⟩ := schedule_computes h (by decide)
    (by simp [sharedProduct, SparseMatrix.filled_scalar])
    (by simp [sharedProduct, SparseMatrix.filled_scalar]) ht
  exact ⟨h, ht, r, hr, fun x y m hslots hres => hrun [[x], [y]] _ (by rfl) m hslots hres⟩

end Tape

end Tangent
