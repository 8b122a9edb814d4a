import Mathlib
import Tangent.Proofs.Dependencies
import Tangent.Proofs.Schedule

/-!
# The scheduler takes no slot too many

At every position of a tape some nodes are live: they have a value, and it is used further on
(`Tape.live`). Each of them needs a slot of its own, so no assignment of slots to nodes gets by with
fewer slots than there are live nodes at the worst position (`Tape.maxLive_le`). The scheduler
takes exactly that many (`Tape.scalars_eq_maxLive`). Between two steps every slot is free or
belongs to a live node (`Scheduling.Tight`), and a further one is taken only when none is free.

Slots are given back by the node that reads their value last. That no slot is lost rests on the
fact that such a node is not left out itself: whatever is not an input is used
(`Layout.used_of_width_le`).
-/

namespace Tangent

variable {K : Type}

/-! ## Last uses -/

/-- The last use of a position is as an output, or in a step that reads it. -/
theorem Step.lastUse_cases {steps : List (Step K)} {outputs : List Nat} {j l : Nat}
    (h : lastUse steps outputs j = some l) :
    (j ∈ outputs ∧ l = steps.length) ∨ ∃ s, steps[l]? = some s ∧ j ∈ s.operands := by
  unfold lastUse at h
  split_ifs at h with ho
  · exact .inl ⟨ho, (Option.some.inj h).symm⟩
  · obtain ⟨⟨s, i⟩, hs, rfl⟩ := Option.map_eq_some_iff.1 h
    obtain ⟨hmem, huse⟩ := List.mem_filter.1 (List.mem_of_getLast? hs)
    exact .inr ⟨s, List.mk_mem_zipIdx_iff_getElem?.1 hmem, by simpa using huse⟩

/-- What is live after step `i` is step `i` itself, if it is used, and what was live and is not
done. -/
theorem live_succ_iff {lastUse : Array (Option Nat)} {i j : Nat} : Live lastUse (i + 1) j ↔
    (j = i ∧ ∃ l, lastUse.getD i none = some l ∧ i + 1 ≤ l) ∨
      (Live lastUse i j ∧ lastUse.getD j none ≠ some i) := by
  constructor
  · intro h
    rcases Scheduling.live_succ h with rfl | hj
    · exact .inl ⟨rfl, h.2⟩
    · exact .inr hj
  · rintro (⟨rfl, hl⟩ | ⟨⟨hj, l, hl, hle⟩, hne⟩)
    · exact ⟨Nat.lt_succ_self j, hl⟩
    · refine ⟨Nat.lt_succ_of_lt hj, l, hl, ?_⟩
      have : l ≠ i := fun he => hne (he ▸ hl)
      omega

namespace Tape

variable {t : Tape K} {openEnded : Bool} {G : Graph K} {i j : Nat}

instance (t : Tape K) : DecidableRel t.Reads := fun i j =>
  decidable_of_iff ((t.steps[i]?).any (j ∈ ·.operands)) (by
    rw [Option.any_eq_true]
    exact exists_congr fun s => and_congr_right fun _ => decide_eq_true_iff)

/-- The position of the last node that uses node `j`: the end of the tape for an output. A node
that nothing uses has a last use before all positions. -/
def lastUse (t : Tape K) (j : Nat) : WithBot Nat :=
  if j ∈ t.results.flatten then (t.nodes.length : WithBot Nat)
  else ((Finset.range t.nodes.length).filter (t.Reads · j)).max

/-- The nodes up to position `i` that are used after it. -/
def live (t : Tape K) (i : Nat) : Finset Nat :=
  (Finset.range (i + 1)).filter fun j => (i : WithBot Nat) < t.lastUse j

/-- The number of live nodes at the position where most are live. -/
def maxLive (t : Tape K) : Nat :=
  (Finset.range t.nodes.length).sup fun i => (t.live i).card

theorem lt_length_of_step {s : Step K} (h : t.steps[i]? = some s) : i < t.nodes.length :=
  length_steps t ▸ (List.getElem?_eq_some_iff.1 h).1

theorem lt_length_of_reads (h : t.Reads i j) : i < t.nodes.length := by
  obtain ⟨s, hs, -⟩ := h
  exact lt_length_of_step hs

/-- What is read is needed at least until then. -/
theorem exists_lastUse_of_reads (h : t.Reads i j) :
    ∃ l, Step.lastUse t.steps t.results.flatten j = some l ∧ i ≤ l := by
  obtain ⟨s, hs, hj⟩ := h
  exact Step.le_lastUse hs hj

theorem lt_lastUse_iff (hi : i < t.nodes.length) : (i : WithBot Nat) < t.lastUse j ↔
    j ∈ t.results.flatten ∨ ∃ k, i < k ∧ t.Reads k j := by
  unfold lastUse
  split_ifs with ho
  · exact iff_of_true (by exact_mod_cast hi) (.inl ho)
  · rw [or_iff_right ho, Finset.max_eq_sup_withBot, Finset.lt_sup_iff]
    simp only [Finset.mem_filter, Finset.mem_range, ← Nat.cast_withBot, Nat.cast_lt]
    constructor
    · rintro ⟨k, ⟨-, hk⟩, hik⟩
      exact ⟨k, hik, hk⟩
    · rintro ⟨k, hik, hk⟩
      exact ⟨k, ⟨lt_length_of_reads hk, hk⟩, hik⟩

/-- A position is needed after its own step, if at all. -/
theorem Layout.lt_of_getD_lastUses (h : t.Layout openEnded) {l : Nat} (hi : i < t.nodes.length)
    (hl : t.lastUses.getD i none = some l) : i < l := by
  rw [← length_steps] at hi
  rw [getD_lastUses hi] at hl
  rcases Step.lastUse_cases hl with ⟨-, rfl⟩ | hread
  · exact hi
  · exact h.lt_of_reads hread

/-- A position that is needed last before the end is read there. -/
theorem reads_of_getD_lastUses (hi : i < t.nodes.length)
    (hl : t.lastUses.getD j none = some i) : t.Reads i j := by
  have hj : j < t.steps.length := by
    by_contra hj
    rw [length_steps, ← size_lastUses] at hj
    simp [hj] at hl
  rw [getD_lastUses hj] at hl
  rcases Step.lastUse_cases hl with ⟨-, rfl⟩ | hread
  · exact absurd (length_steps t) hi.ne
  · exact hread

/-- The scheduler has the same live nodes. -/
theorem mem_live_iff (hi : i < t.nodes.length) : j ∈ t.live i ↔ Live t.lastUses (i + 1) j := by
  rw [live, Finset.mem_filter, Finset.mem_range, Live]
  refine and_congr_right fun hj => ?_
  rw [lt_lastUse_iff hi, getD_lastUses (by rw [length_steps]; omega)]
  constructor
  · rintro (ho | ⟨k, hik, hk⟩)
    · exact ⟨_, Step.lastUse_of_mem ho, by rw [length_steps]; omega⟩
    · obtain ⟨l, hl, hkl⟩ := exists_lastUse_of_reads hk
      exact ⟨l, hl, by omega⟩
  · rintro ⟨l, hl, hil⟩
    rcases Step.lastUse_cases hl with ⟨ho, -⟩ | hread
    · exact .inl ho
    · exact .inr ⟨l, hil, hread⟩

/-- No node is live before the first position. -/
def liveBefore (t : Tape K) : Nat → Finset Nat
  | 0 => ∅
  | i + 1 => t.live i

theorem mem_liveBefore_iff (hi : i ≤ t.nodes.length) :
    j ∈ t.liveBefore i ↔ Live t.lastUses i j := by
  cases i with
  | zero => exact iff_of_false (Finset.notMem_empty j) fun hj => Nat.not_lt_zero j hj.1
  | succ i => exact mem_live_iff hi

/-! ## Every node that is not an input is used -/

namespace Layout

/-- In a graph, a node that is not an input is an output, or another node reads it. -/
theorem used_of_width_le (h : t.Layout openEnded) (hG : ∀ n ∈ t.nodes, n ∈ G)
    (hout : ∀ n ∈ nonzerosOf t.outputs, n ∈ G) (hi : t.width ≤ i) (hlt : i < t.nodes.length) :
    i ∈ t.results.flatten ∨ ∃ k, t.Reads k i := by
  have hn := List.getElem?_eq_getElem hlt
  rcases h.reached _ (List.getElem_mem hlt) with hin | ⟨r, hr, hreach⟩
  · obtain ⟨k, hk⟩ := List.mem_iff_getElem?.1 hin
    have hkw : k < t.width := width_eq t ▸ (List.getElem?_eq_some_iff.1 hk).1
    rw [← h.getElem?_input hkw, ← hn] at hk
    have := (List.getElem?_inj hlt (h.nodup.of_map _)).1 hk.symm
    omega
  · have hpos := getElem?_position_of_graph hG (hout r hr) (h.outputs r hr)
    rcases needs_iff_tail.1 ((h.needs_iff_reaches hG hpos hn).2 hreach) with rfl | ⟨k, -, hk⟩
    · exact .inl (flatten_results t ▸ List.mem_map_of_mem hr)
    · exact .inr ⟨k, hk⟩

/-- A node that reads another one is needed itself. -/
theorem lastUse_ne_none_of_reads (h : t.Layout openEnded) (hG : ∀ n ∈ t.nodes, n ∈ G)
    (hout : ∀ n ∈ nonzerosOf t.outputs, n ∈ G) (hread : t.Reads i j) :
    t.lastUses.getD i none ≠ none := by
  have hlt := lt_length_of_reads hread
  have hi : t.width ≤ i := Nat.not_lt.1 fun hi => h.not_reads_input hi hread
  rw [getD_lastUses (by rwa [length_steps])]
  rcases h.used_of_width_le hG hout hi hlt with ho | ⟨k, hk⟩
  · simp [Step.lastUse_of_mem ho]
  · obtain ⟨l, hl, -⟩ := exists_lastUse_of_reads hk
    simp [hl]

end Layout

end Tape

/-! ## One step of the scheduler -/

namespace Slots

/-- A slot is taken from the free ones while there are any. -/
theorem take_count (s : Slots) : s.take.2.free.length = s.free.length - 1 ∧
    s.take.2.count = if s.free.length = 0 then s.count + 1 else s.count := by
  obtain ⟨free, count⟩ := s
  cases free <;> simp [take]

end Slots

namespace Scheduling

variable {t : Tape K} {openEnded : Bool} {G : Graph K} {i : Nat} {step : Step K}
  {s s' : Scheduling K}

/-- What a step can do: a position that nothing needs is left out, and any other one is computed
after the slots of those operands are free that it is the last to read. -/
theorem advance_cases {lastUse : Array (Option Nat)}
    (h : advance t lastUse s (step, i) = .ok s') :
    (lastUse.getD i none = none ∧ s' = s.skip) ∨
      lastUse.getD i none ≠ none ∧ ∃ done instr, s' = s.emit done instr ∧ done.Nodup ∧
        ∀ j, j ∈ done ↔ j ∈ step.operands ∧ lastUse.getD j none = some i := by
  simp only [advance] at h
  cases huse : lastUse.getD i none with
  | none =>
    rw [huse, if_pos (by rfl)] at h
    exact .inl ⟨rfl, (Except.ok.inj h).symm⟩
  | some l =>
    rw [huse, if_neg (by simp)] at h
    refine .inr ⟨by simp, ?_⟩
    cases step with
    | symbol name =>
      simp only at h
      split at h
      · exact ⟨_, _, (Except.ok.inj h).symm, List.nodup_nil, by simp [Step.operands]⟩
      · cases h
    | const v =>
      exact ⟨_, _, (Except.ok.inj h).symm, List.nodup_nil, by simp [Step.operands]⟩
    | unary u x =>
      exact ⟨_, _, (Except.ok.inj h).symm, (List.nodup_singleton x).filter _,
        by simp [Step.operands]⟩
    | binary b x y =>
      refine ⟨_, _, (Except.ok.inj h).symm, List.Nodup.filter _ ?_, fun j => ?_⟩
      · split_ifs with hxy <;> simp [hxy]
      · split_ifs with hxy <;> simp [Step.operands, hxy]

/-- Every slot is free or belongs to a live node, and there are as many slots as were live at some
position so far. -/
structure Tight (t : Tape K) (i : Nat) (s : Scheduling K) : Prop where
  partition : s.slots.free.length + (t.liveBefore i).card = s.slots.count
  peak : s.slots.count = (Finset.range i).sup fun k => (t.live k).card

theorem sup_live_succ (t : Tape K) (i : Nat) :
    ((Finset.range (i + 1)).sup fun k => (t.live k).card) =
      max ((Finset.range i).sup fun k => (t.live k).card) (t.liveBefore (i + 1)).card := by
  rw [Finset.range_add_one, Finset.sup_insert, max_comm]
  rfl

/-- At a position that is left out nothing becomes live, and nothing ceases to be. -/
theorem liveBefore_skip (h : t.Layout openEnded) (hG : ∀ n ∈ t.nodes, n ∈ G)
    (hout : ∀ n ∈ Tape.nonzerosOf t.outputs, n ∈ G) (hi : i < t.nodes.length)
    (huse : t.lastUses.getD i none = none) : t.liveBefore (i + 1) = t.liveBefore i := by
  ext j
  rw [Tape.mem_liveBefore_iff hi, Tape.mem_liveBefore_iff hi.le, live_succ_iff]
  constructor
  · rintro (⟨-, l, hl, -⟩ | ⟨hj, -⟩)
    · rw [huse] at hl
      cases hl
    · exact hj
  · intro hj
    refine .inr ⟨hj, fun hl => ?_⟩
    exact h.lastUse_ne_none_of_reads hG hout (Tape.reads_of_getD_lastUses hi hl) huse

/-- At a position that is computed the node becomes live, and the operands that it is the last to
read cease to be. -/
theorem liveBefore_emit (h : t.Layout openEnded) (hstep : t.steps[i]? = some step)
    (huse : t.lastUses.getD i none ≠ none) {done : List Nat}
    (hdone : ∀ j, j ∈ done ↔ j ∈ step.operands ∧ t.lastUses.getD j none = some i) :
    t.liveBefore (i + 1) = insert i (t.liveBefore i \ done.toFinset) := by
  have hi := Tape.lt_length_of_step hstep
  obtain ⟨l, hl⟩ := Option.ne_none_iff_exists'.1 huse
  have hself : ∃ l, t.lastUses.getD i none = some l ∧ i + 1 ≤ l :=
    ⟨l, hl, h.lt_of_getD_lastUses hi hl⟩
  -- A node that step `i` is the last to use is one of its operands.
  have hends : ∀ j, j ∈ done ↔ t.lastUses.getD j none = some i := by
    intro j
    rw [hdone, and_iff_right_iff_imp]
    intro hj
    obtain ⟨step', hstep', hmem⟩ := Tape.reads_of_getD_lastUses hi hj
    obtain rfl := Option.some.inj (hstep.symm.trans hstep')
    exact hmem
  ext j
  rw [Tape.mem_liveBefore_iff hi, live_succ_iff, Finset.mem_insert, Finset.mem_sdiff,
    Tape.mem_liveBefore_iff hi.le, List.mem_toFinset, hends, and_iff_left hself]

/-- The number of live nodes after a position that is computed. -/
theorem card_liveBefore_emit (h : t.Layout openEnded) (hstep : t.steps[i]? = some step)
    (huse : t.lastUses.getD i none ≠ none) {done : List Nat} (hd : done.Nodup)
    (hdone : ∀ j, j ∈ done ↔ j ∈ step.operands ∧ t.lastUses.getD j none = some i) :
    (t.liveBefore (i + 1)).card + done.length = (t.liveBefore i).card + 1 := by
  have hi := (Tape.lt_length_of_step hstep).le
  have hnew : i ∉ t.liveBefore i \ done.toFinset := by
    intro hmem
    exact Nat.lt_irrefl i ((Tape.mem_liveBefore_iff hi).1 (Finset.mem_sdiff.1 hmem).1).1
  have hsub : done.toFinset ⊆ t.liveBefore i := by
    intro j hj
    rw [List.mem_toFinset, hdone] at hj
    exact (Tape.mem_liveBefore_iff hi).2 (h.live_operand hstep hj.1)
  have hcard := Finset.card_sdiff_add_card_eq_card hsub
  rw [List.toFinset_card_of_nodup hd] at hcard
  rw [liveBefore_emit h hstep huse hdone, Finset.card_insert_of_notMem hnew]
  omega

/-- A step keeps slots from being lost, and takes a further one only if all are in use. -/
theorem Tight.advance (h : t.Layout openEnded) (hG : ∀ n ∈ t.nodes, n ∈ G)
    (hout : ∀ n ∈ Tape.nonzerosOf t.outputs, n ∈ G) (hstep : t.steps[i]? = some step)
    (hs : s.Tight t i) (hadv : Scheduling.advance t t.lastUses s (step, i) = .ok s') :
    s'.Tight t (i + 1) := by
  have hi := Tape.lt_length_of_step hstep
  have hpart := hs.partition
  have hpeak := hs.peak
  rcases advance_cases hadv with ⟨huse, rfl⟩ | ⟨huse, done, instr, rfl, hd, hdone⟩
  · have hlive := liveBefore_skip h hG hout hi huse
    have hslots : s.skip.slots = s.slots := rfl
    refine ⟨by rw [hlive, hslots, hpart], ?_⟩
    rw [sup_live_succ, ← hpeak, hlive, hslots]
    omega
  · have hcard := card_liveBefore_emit h hstep huse hd hdone
    have hslots : (s.emit done instr).slots = (s.freed done).take.2 := by rw [emit_eq]
    obtain ⟨hfree, hcount⟩ := Slots.take_count (s.freed done)
    have hlen : (s.freed done).free.length = done.length + s.slots.free.length := by
      simp [freed]
    have hsame : (s.freed done).count = s.slots.count := rfl
    rw [hlen, hsame] at hcount
    rw [hlen] at hfree
    constructor
    · rw [hslots, hfree, hcount]
      split_ifs <;> omega
    · rw [sup_live_succ, ← hpeak, hslots, hcount]
      split_ifs <;> omega

end Scheduling

namespace Tape

variable {t : Tape K} {openEnded : Bool} {G : Graph K}

theorem exists_of_schedule {r : Routine K} (h : t.schedule = .ok r) :
    ∃ s, t.steps.zipIdx.foldlM (Scheduling.advance t t.lastUses) {} = .ok s ∧
      r = t.routineOf s := by
  rw [schedule_eq] at h
  cases hs : t.steps.zipIdx.foldlM (Scheduling.advance t t.lastUses) {} with
  | error e =>
    rw [hs] at h
    cases h
  | ok s =>
    rw [hs, Except.bind] at h
    cases hv : (t.routineOf s).validate with
    | error e =>
      rw [hv] at h
      cases h
    | ok u =>
      rw [hv] at h
      exact ⟨s, rfl, (Except.ok.inj h).symm⟩

theorem Layout.count_eq_maxLive (h : t.Layout openEnded) (hG : ∀ n ∈ t.nodes, n ∈ G)
    (hout : ∀ n ∈ nonzerosOf t.outputs, n ∈ G) {s : Scheduling K}
    (hs : t.steps.zipIdx.foldlM (Scheduling.advance t t.lastUses) {} = .ok s) :
    s.slots.count = t.maxLive := by
  have htight : s.Tight t t.steps.length := by
    refine Ends.of_eq_ok (E := fun _ => True) (Ends.foldlM_zipIdx
      (P := fun i (s : Scheduling K) => s.Tight t i) ⟨rfl, rfl⟩ fun i step s hstep hs => ?_) hs
    exact .of_forall fun s' hadvance => hs.advance h hG hout hstep hadvance
  rw [htight.peak, length_steps]
  rfl

theorem maxLive_le_length (t : Tape K) : t.maxLive ≤ t.nodes.length := by
  refine Finset.sup_le fun i hi => ?_
  calc (t.live i).card ≤ (Finset.range (i + 1)).card := Finset.card_filter_le _ _
    _ = i + 1 := Finset.card_range _
    _ ≤ t.nodes.length := Finset.mem_range.1 hi

/-- If live nodes have slots of their own, there are at least as many slots as nodes are live at the
worst position. -/
theorem maxLive_le {count : Nat} {slot : Nat → Nat}
    (hlt : ∀ i < t.nodes.length, ∀ j ∈ t.live i, slot j < count)
    (hinj : ∀ i < t.nodes.length, ∀ j ∈ t.live i, ∀ k ∈ t.live i, slot j = slot k → j = k) :
    t.maxLive ≤ count := by
  refine Finset.sup_le fun i hi => ?_
  have hi := Finset.mem_range.1 hi
  calc (t.live i).card ≤ (Finset.range count).card :=
        Finset.card_le_card_of_injOn slot (fun j hj => by simpa using hlt i hi j hj)
          fun j hj k hk => hinj i hi j hj k hk
    _ = count := Finset.card_range count

/-- A routine that a tape is scheduled to has as many slots as nodes are live at the position where
most are, and no assignment of slots that keeps live nodes apart has fewer. -/
theorem scalars_eq_maxLive [Numeral K] (G : Graph K) {openEnded : Bool} {name : String}
    {inputs outputs : List (SparseMatrix K)} {t : Tape K} {r : Routine K}
    (h : layOut openEnded name inputs outputs = .ok t) (hin : ∀ n ∈ nonzerosOf inputs, n ∈ G)
    (hout : ∀ n ∈ nonzerosOf outputs, n ∈ G) (hr : t.schedule = .ok r) :
    r.scalars = Int64.ofNat t.maxLive ∧
      (t.nodes.length < 2 ^ 63 → r.scalars.toInt = t.maxLive) ∧
      ∀ (count : Nat) (slot : Nat → Nat),
        (∀ i < t.nodes.length, ∀ j ∈ t.live i, slot j < count) →
        (∀ i < t.nodes.length, ∀ j ∈ t.live i, ∀ k ∈ t.live i, slot j = slot k → j = k) →
        t.maxLive ≤ count := by
  have hlay := layout_of_layOut h
  obtain ⟨-, rfl, rfl, -⟩ := layOut_ok h
  obtain ⟨s, hs, rfl⟩ := exists_of_schedule hr
  have hscalars : (t.routineOf s).scalars = Int64.ofNat t.maxLive := by
    rw [← hlay.count_eq_maxLive (hlay.mem_graph hin hout) hout hs]
    rfl
  refine ⟨hscalars, fun hlen => ?_, fun count slot => maxLive_le⟩
  rw [hscalars, Int64.toInt_ofNat_of_lt (t.maxLive_le_length.trans_lt hlen)]

/-! ## Twice a product

Next to an input that is not used, and one that is an output as well. -/

namespace TwiceProduct

def x : Node Float := .symbol 1 "x"
def spare : Node Float := .symbol 2 "z"
def y : Node Float := .symbol 3 "y"
def product : Node Float := .binary 4 .mul x y
def sum : Node Float := .binary 5 .add product product

def tape : Tape Float where
  name := "twice"
  inputs := [.scalar x, .scalar spare, .scalar y]
  outputs := [.scalar sum, .scalar x]
  toOrder := .ofNodes [x, spare, y, product, sum] (by decide)

def graph : Graph Float :=
  .ofList tape.nodes (by simp [tape, sum, product, x, y, spare, Node.operands]) (by decide)

theorem inputs_mem : ∀ n ∈ nonzerosOf tape.inputs, n ∈ graph := fun _ hn =>
  List.take_subset 3 tape.nodes hn

theorem outputs_mem : ∀ n ∈ nonzerosOf tape.outputs, n ∈ graph := by
  intro n hn
  change n ∈ [sum, x] at hn
  change n ∈ [x, spare, y, product, sum]
  simp only [List.mem_cons] at hn ⊢
  tauto

end TwiceProduct

/-- Two slots are enough for five nodes: the product takes the slot of the second factor, and the
sum that of the product, which it reads twice. -/
theorem scalars_twiceProduct :
    (∀ n ∈ nonzerosOf TwiceProduct.tape.inputs, n ∈ TwiceProduct.graph) ∧
      (∀ n ∈ nonzerosOf TwiceProduct.tape.outputs, n ∈ TwiceProduct.graph) ∧
      freeze "twice" TwiceProduct.tape.inputs TwiceProduct.tape.outputs = .ok TwiceProduct.tape ∧
      TwiceProduct.tape.lastUse 1 = ⊥ ∧ TwiceProduct.tape.live 3 = {0, 3} ∧
      ∃ r, TwiceProduct.tape.schedule = .ok r ∧ r.scalars.toInt = 2 := by
  have h : freeze "twice" TwiceProduct.tape.inputs TwiceProduct.tape.outputs =
    .ok TwiceProduct.tape := by rfl
  obtain ⟨r, hr⟩ : ∃ r, TwiceProduct.tape.schedule = .ok r := ⟨_, by rfl⟩
  have hmax : TwiceProduct.tape.maxLive = 2 := by decide
  have hscalars := (scalars_eq_maxLive TwiceProduct.graph h TwiceProduct.inputs_mem
    TwiceProduct.outputs_mem hr).2.1 (by decide)
  rw [hmax] at hscalars
  exact ⟨TwiceProduct.inputs_mem, TwiceProduct.outputs_mem, h, by decide, by decide, r, hr,
    hscalars⟩

end Tape

end Tangent
