import Mathlib
import Tangent.Proofs.Additions

/-!
# The tables of a module

A module gives a number to an array of constants and to a pattern. `TableCall.answer` registers one
of them or asks for the number of a registered one, and `answerEach` answers calls in turn.

What the calls so far say about a module is `Recorded`: each table lists the different contents that
were registered, in the order in which they came first, and a pattern has a number if this pattern,
and not only one with the same entries, was registered. One call keeps that (`Recorded.step`), and
its answer is read off the calls before it (`expected`), so that neither buckets nor hashes are left
in what a run answers (`Recorded.answerEach`).
-/

namespace Tangent.CodeModule

/-! ## Lists without repetitions -/

section EraseDups

variable {γ : Type} [BEq γ] [LawfulBEq γ] {xs ys : List γ} {x : γ}

theorem eraseDups_concat_of_mem (h : x ∈ xs) : (xs ++ [x]).eraseDups = xs.eraseDups := by
  simp [List.eraseDups_append, List.removeAll, h]

theorem eraseDups_concat_of_not_mem (h : x ∉ xs) :
    (xs ++ [x]).eraseDups = xs.eraseDups ++ [x] := by
  simp [List.eraseDups_append, List.removeAll, h, List.eraseDups_cons]

theorem prefix_eraseDups (h : xs <+: ys) : xs.eraseDups <+: ys.eraseDups := by
  obtain ⟨zs, rfl⟩ := h
  rw [List.eraseDups_append]
  exact List.prefix_append _ _

/-- What has a number keeps it when more is listed. -/
theorem idxOf_eraseDups (h : xs <+: ys) (hx : x ∈ xs) :
    xs.eraseDups.idxOf x = ys.eraseDups.idxOf x :=
  (prefix_eraseDups h).idxOf_eq_of_mem (List.mem_eraseDups.2 hx)

end EraseDups

/-! ## One pool -/

namespace Pool

variable {α : Type} [BEq α] {p : Pool α} {xs : List (List α)} {v : List α}

/-- The arrays of a pool are the listed ones without repetitions, in the order in which they are
listed first. Different arrays have different bits. -/
structure Lists (p : Pool α) (xs : List (List α)) : Prop where
  sound : p.Sound
  injective : Function.Injective p.bitsOf
  arrays : p.arrays = xs.eraseDups

theorem lists_empty {kind : PoolKind α} (h : Function.Injective kind.bits) :
    Lists { kind } [] :=
  ⟨sound_empty kind, List.map_injective_iff.2 h, rfl⟩

theorem Lists.holds_iff (hp : p.Lists xs) {i : Nat} :
    p.Holds i v ↔ xs.eraseDups[i]? = some v := by
  rw [Holds, hp.arrays]
  constructor
  · rintro ⟨w, hw, hbits⟩
    rwa [← hp.injective hbits]
  · exact fun h => ⟨v, h, rfl⟩

variable [LawfulBEq α]

theorem Lists.find?_of_mem (hp : p.Lists xs) (h : v ∈ xs) :
    p.find? v = some (xs.eraseDups.idxOf v) := by
  rw [find?_eq_some_iff hp.sound, hp.holds_iff]
  exact List.getElem?_idxOf (List.mem_eraseDups.2 h)

theorem Lists.find?_of_not_mem (hp : p.Lists xs) (h : v ∉ xs) : p.find? v = none := by
  rw [find?_eq_none_iff hp.sound]
  intro w hw hbits
  rw [hp.arrays, hp.injective hbits] at hw
  exact h (List.mem_eraseDups.1 hw)

theorem Lists.concat_of_mem (hp : p.Lists xs) (h : v ∈ xs) : p.Lists (xs ++ [v]) :=
  ⟨hp.sound, hp.injective, by rw [hp.arrays, eraseDups_concat_of_mem h]⟩

theorem Lists.add (hp : p.Lists xs) (v : List α) :
    (p.add v).1 = (xs ++ [v]).eraseDups.idxOf v ∧ (p.add v).2.Lists (xs ++ [v]) := by
  by_cases h : v ∈ xs
  · rw [add_of_some (hp.find?_of_mem h), eraseDups_concat_of_mem h]
    exact ⟨rfl, hp.concat_of_mem h⟩
  · have hnew : v ∉ xs.eraseDups := fun hmem => h (List.mem_eraseDups.1 hmem)
    have hsound := sound_add hp.sound v
    rw [add_of_none (hp.find?_of_not_mem h)] at hsound ⊢
    rw [eraseDups_concat_of_not_mem h, List.idxOf_append_of_notMem hnew, List.idxOf_cons_self,
      Nat.add_zero, ← hp.arrays]
    refine ⟨rfl, hsound, hp.injective, ?_⟩
    rw [eraseDups_concat_of_not_mem h, ← hp.arrays]

end Pool

/-! ## Calls -/

/-- A call that registers an array or a pattern, or asks for the number of a registered one. Arrays
are given by their bits, so that there are many without a number. -/
inductive TableCall
  | addConstant (words : List UInt64)
  | getConstant (words : List UInt64)
  | addPattern (sp : SharedPattern)
  | getPattern (sp : SharedPattern)

namespace TableCall

def answer : TableCall → StateM CodeModule (Result Nat)
  | addConstant words => return .ok (← modifyGet (CodeModule.addWords words))
  | getConstant words => return (← get).getWords words
  | addPattern sp => return .ok (← modifyGet (CodeModule.addPattern sp))
  | getPattern sp => return (← get).getPattern sp

def registers : TableCall → Bool
  | addConstant _ | addPattern _ => true
  | getConstant _ | getPattern _ => false

def words? : TableCall → Option (List UInt64)
  | addConstant words | getConstant words => some words
  | addPattern _ | getPattern _ => none

def pattern? : TableCall → Option SharedPattern
  | addPattern sp | getPattern sp => some sp
  | addConstant _ | getConstant _ => none

/-- The short form of the pattern that a call is about. -/
def compressed? (call : TableCall) : Option (List Int64) :=
  call.pattern?.map (·.pattern.compress)

end TableCall

open TableCall

/-- Answer calls in turn. -/
def answerEach (calls : List TableCall) : StateM CodeModule (List (Result Nat)) :=
  calls.mapM answer

/-- What the calls register, of what they are about. -/
def registered {γ : Type} (about? : TableCall → Option γ) (calls : List TableCall) : List γ :=
  (calls.filter (·.registers)).filterMap about?

section Registered

variable {γ : Type} {about? : TableCall → Option γ} {calls before : List TableCall}
  {call : TableCall} {x : γ}

theorem registered_mono (h : before <+: calls) :
    registered about? before <+: registered about? calls := by
  obtain ⟨rest, rfl⟩ := h
  simp [registered]

theorem registered_concat (hcall : call.registers) (hx : about? call = some x) :
    registered about? (before ++ [call]) = registered about? before ++ [x] := by
  simp [registered, hcall, hx]

theorem registered_concat_of_none (hx : about? call = none) :
    registered about? (before ++ [call]) = registered about? before := by
  by_cases hcall : call.registers <;> simp [registered, hcall, hx]

theorem registered_concat_of_not (hcall : call.registers = false) :
    registered about? (before ++ [call]) = registered about? before := by
  simp [registered, hcall]

theorem registered_subset : registered about? calls ⊆ calls.filterMap about? :=
  List.filterMap_subset _ (List.filter_subset_self _)

theorem mem_registered : x ∈ registered about? calls ↔
    ∃ call ∈ calls, call.registers ∧ about? call = some x := by
  simp [registered, and_assoc]

theorem mem_registered_words {words : List UInt64} :
    words ∈ registered words? calls ↔ .addConstant words ∈ calls := by
  rw [mem_registered]
  constructor
  · rintro ⟨call, hcall, hregisters, hwords⟩
    cases call with
    | addConstant words' => exact Option.some.inj hwords ▸ hcall
    | addPattern sp => cases hwords
    | getConstant words' => cases hregisters
    | getPattern sp => cases hregisters
  · exact fun hcall => ⟨_, hcall, rfl, rfl⟩

theorem mem_registered_pattern {sp : SharedPattern} :
    sp ∈ registered pattern? calls ↔ .addPattern sp ∈ calls := by
  rw [mem_registered]
  constructor
  · rintro ⟨call, hcall, hregisters, hsp⟩
    cases call with
    | addPattern sp' => exact Option.some.inj hsp ▸ hcall
    | addConstant words => cases hsp
    | getConstant words => cases hregisters
    | getPattern sp' => cases hregisters
  · exact fun hcall => ⟨_, hcall, rfl, rfl⟩

theorem registered_compressed :
    registered compressed? calls = (registered pattern? calls).map (·.pattern.compress) := by
  unfold registered compressed?
  rw [List.map_filterMap]

end Registered

/-! ## What is recorded -/

/-- The number that a pattern has in the table of integers. -/
def patternNumber (sps : List SharedPattern) (sp : SharedPattern) : Nat :=
  (sps.map (·.pattern.compress)).eraseDups.idxOf sp.pattern.compress

theorem patternNumber_mono {sps sps' : List SharedPattern} {sp : SharedPattern}
    (h : sps <+: sps') (hsp : sp ∈ sps) : patternNumber sps sp = patternNumber sps' sp :=
  idxOf_eraseDups (h.map _) (List.mem_map_of_mem hsp)

/-- A key is the key of one pattern only. -/
def OneEach (sps : List SharedPattern) : Prop :=
  ∀ sp ∈ sps, ∀ sp' ∈ sps, sp.key = sp'.key → sp = sp'

theorem OneEach.mono {sps sps' : List SharedPattern} (h : OneEach sps) (hsub : sps' ⊆ sps) :
    OneEach sps' := fun sp hsp sp' hsp' =>
  h sp (hsub hsp) sp' (hsub hsp')

theorem OneEach.registered {before : List TableCall} {call : TableCall} {sp : SharedPattern}
    (h : OneEach ((before ++ [call]).filterMap pattern?)) (hcall : call.pattern? = some sp) :
    OneEach (registered pattern? before ++ [sp]) := by
  refine h.mono ?_
  rw [List.filterMap_append, List.filterMap_cons, hcall]
  exact List.append_subset.2 ⟨List.subset_append_of_subset_left _ registered_subset,
    List.subset_append_right _ _⟩

/-- What a module with a name has after the given calls. -/
structure Recorded (name : String) (calls : List TableCall) (m : CodeModule) : Prop where
  named : m.name = name
  reals : m.reals.Lists (registered words? calls)
  integers : m.integers.Lists (registered compressed? calls)
  patterns : ∀ key i, m.patterns.lookup key = some i ↔ ∃ sp ∈ registered pattern? calls,
    sp.key = key ∧ patternNumber (registered pattern? calls) sp = i

/-- The answer to a call after other calls to a module with a name. -/
def expected (name : String) (before : List TableCall) : TableCall → Result Nat
  | .addConstant words =>
    .ok ((registered words? before ++ [words]).eraseDups.idxOf words)
  | .getConstant words =>
    if words ∈ registered words? before then
      .ok ((registered words? before).eraseDups.idxOf words)
    else .error (.missing (.registeredConstant (valuesText (words.map Float.ofBits)) name))
  | .addPattern sp => .ok (patternNumber (registered pattern? before ++ [sp]) sp)
  | .getPattern sp =>
    if sp ∈ registered pattern? before then
      .ok (patternNumber (registered pattern? before) sp)
    else .error (.missing (.registeredPattern sp.pattern.describe name))

namespace Recorded

variable {name : String} {before calls : List TableCall} {call : TableCall} {m : CodeModule}

/-- A registered pattern has its number, and no other pattern has one. -/
theorem patternTable? (h : Recorded name before m) {sp : SharedPattern}
    (hone : OneEach (registered pattern? before ++ [sp])) : m.patternTable? sp =
      if sp ∈ registered pattern? before then
        some (patternNumber (registered pattern? before) sp) else none := by
  split_ifs with hsp
  · exact (h.patterns _ _).2 ⟨sp, hsp, rfl, rfl⟩
  · refine Option.eq_none_iff_forall_ne_some.2 fun i hi => hsp ?_
    obtain ⟨sp', hsp', hkey, -⟩ := (h.patterns _ _).1 hi
    rwa [← hone sp' (List.mem_append_left _ hsp') sp (List.mem_append_right _ List.mem_cons_self)
      hkey]

theorem addWords (h : Recorded name before m) (words : List UInt64) :
    (m.addWords words).1 = (registered words? before ++ [words]).eraseDups.idxOf words ∧
      Recorded name (before ++ [.addConstant words]) (m.addWords words).2 := by
  obtain ⟨records, hadd⟩ := addWords_eq m words
  obtain ⟨hnumber, hlists⟩ := h.reals.add words
  have hreals : registered words? (before ++ [.addConstant words]) =
      registered words? before ++ [words] := registered_concat rfl rfl
  rw [hadd]
  refine ⟨hnumber, h.named, hreals ▸ hlists, ?_, ?_⟩
  · rw [registered_concat_of_none rfl]
    exact h.integers
  · rw [registered_concat_of_none rfl]
    exact h.patterns

theorem addPattern (h : Recorded name before m) {sp : SharedPattern}
    (hone : OneEach (registered pattern? before ++ [sp])) :
    (m.addPattern sp).1 = patternNumber (registered pattern? before ++ [sp]) sp ∧
      Recorded name (before ++ [.addPattern sp]) (m.addPattern sp).2 := by
  have htable := h.patternTable? hone
  have hreals : registered words? (before ++ [.addPattern sp]) = registered words? before :=
    registered_concat_of_none rfl
  have hintegers : registered compressed? (before ++ [.addPattern sp]) =
      registered compressed? before ++ [sp.pattern.compress] := registered_concat rfl rfl
  have hpatterns : registered pattern? (before ++ [.addPattern sp]) =
      registered pattern? before ++ [sp] := registered_concat rfl rfl
  have hold : ∀ sp' ∈ registered pattern? before,
      patternNumber (registered pattern? before) sp' =
        patternNumber (registered pattern? before ++ [sp]) sp' := fun sp' =>
    patternNumber_mono (List.prefix_append _ _)
  -- The numbers after the call are those before it and the one of the new pattern.
  have hsplit : ∀ key i, (∃ sp' ∈ registered pattern? (before ++ [.addPattern sp]),
      sp'.key = key ∧ patternNumber (registered pattern? (before ++ [.addPattern sp])) sp' = i) ↔
        m.patterns.lookup key = some i ∨
          sp.key = key ∧ patternNumber (registered pattern? before ++ [sp]) sp = i := by
    intro key i
    rw [h.patterns, hpatterns]
    constructor
    · rintro ⟨sp', hsp', hnumber⟩
      rcases List.mem_append.1 hsp' with hsp' | hsp'
      · exact .inl ⟨sp', hsp', hold sp' hsp' ▸ hnumber⟩
      · exact .inr (List.mem_singleton.1 hsp' ▸ hnumber)
    · rintro (⟨sp', hsp', hnumber⟩ | hnumber)
      · exact ⟨sp', List.mem_append_left _ hsp', hold sp' hsp' ▸ hnumber⟩
      · exact ⟨sp, List.mem_append_right _ List.mem_cons_self, hnumber⟩
  by_cases hsp : sp ∈ registered pattern? before
  · rw [if_pos hsp] at htable
    rw [CodeModule.addPattern, htable]
    refine ⟨hold sp hsp, h.named, hreals ▸ h.reals, ?_, fun key i => ?_⟩
    · rw [hintegers]
      refine h.integers.concat_of_mem ?_
      rw [registered_compressed]
      exact List.mem_map_of_mem hsp
    · rw [hsplit, iff_self_or]
      rintro ⟨rfl, rfl⟩
      rw [← hold sp hsp]
      exact htable
  · obtain ⟨hnumber, hlists⟩ := h.integers.add sp.pattern.compress
    have hnumber' : (m.integers.add sp.pattern.compress).1 =
        patternNumber (registered pattern? before ++ [sp]) sp := by
      rw [hnumber, patternNumber, List.map_append, registered_compressed]
      rfl
    rw [if_neg hsp] at htable
    rw [CodeModule.addPattern, htable]
    refine ⟨hnumber', h.named, hreals ▸ h.reals, hintegers ▸ hlists, fun key i => ?_⟩
    rw [hsplit, ← hnumber']
    change (m.patterns ++ [(sp.key, (m.integers.add sp.pattern.compress).1)]).lookup key =
      some i ↔ _
    rw [List.lookup_append, List.lookup_cons]
    by_cases hkey : sp.key = key
    · subst hkey
      rw [CodeModule.patternTable?] at htable
      simp [htable]
    · simp [hkey, beq_false_of_ne (Ne.symm hkey)]

/-- A call is answered as the calls before it say, and is recorded. -/
theorem step (h : Recorded name before m)
    (hone : OneEach ((before ++ [call]).filterMap pattern?)) :
    ((answer call).run m).1 = expected name before call ∧
      Recorded name (before ++ [call]) ((answer call).run m).2 := by
  have hsame : call.registers = false → Recorded name (before ++ [call]) m := by
    intro hget
    obtain ⟨hnamed, hreals, hintegers, hpatterns⟩ := h
    refine ⟨hnamed, ?_, ?_, ?_⟩ <;> rwa [registered_concat_of_not hget]
  cases call with
  | addConstant words =>
    obtain ⟨hnumber, hrecorded⟩ := h.addWords words
    exact ⟨congrArg Except.ok hnumber, hrecorded⟩
  | getConstant words =>
    refine ⟨?_, hsame rfl⟩
    change m.getWords words = _
    rw [getWords, expected]
    split_ifs with hmem
    · rw [h.reals.find?_of_mem hmem]
    · rw [h.reals.find?_of_not_mem hmem, h.named]
  | addPattern sp =>
    obtain ⟨hnumber, hrecorded⟩ := h.addPattern (hone.registered rfl)
    exact ⟨congrArg Except.ok hnumber, hrecorded⟩
  | getPattern sp =>
    refine ⟨?_, hsame rfl⟩
    change m.getPattern sp = _
    rw [getPattern, expected, h.patternTable? (hone.registered rfl)]
    split_ifs with hmem
    · rfl
    · rw [h.named]

end Recorded

theorem answerEach_cons (call : TableCall) (calls : List TableCall) (m : CodeModule) :
    (answerEach (call :: calls)).run m =
      (((answer call).run m).1 :: ((answerEach calls).run ((answer call).run m).2).1,
        ((answerEach calls).run ((answer call).run m).2).2) := by
  rw [answerEach, List.mapM_cons]
  rfl

/-- The last call is answered after the others. -/
theorem answerEach_concat (calls : List TableCall) (call : TableCall) (m : CodeModule) :
    ((answerEach (calls ++ [call])).run m).2 =
      ((answer call).run ((answerEach calls).run m).2).2 := by
  induction calls generalizing m with
  | nil => rfl
  | cons first calls ih => rw [List.cons_append, answerEach_cons, answerEach_cons, ih]

/-- Calls are answered as the calls before each of them say, and they are recorded. -/
theorem Recorded.answerEach {name : String} {before calls : List TableCall} {m : CodeModule}
    (h : Recorded name before m) (hone : OneEach ((before ++ calls).filterMap pattern?)) :
    (∀ k, ((answerEach calls).run m).1[k]? =
        calls[k]?.map (expected name (before ++ calls.take k))) ∧
      Recorded name (before ++ calls) ((answerEach calls).run m).2 := by
  induction calls generalizing before m with
  | nil => exact ⟨fun k => rfl, by rwa [List.append_nil]⟩
  | cons call calls ih =>
    have happend : before ++ call :: calls = before ++ [call] ++ calls := by simp
    have hone' : OneEach ((before ++ [call]).filterMap pattern?) := by
      rw [happend] at hone
      exact hone.mono ((List.prefix_append _ _).filterMap _).subset
    obtain ⟨hanswer, hcall⟩ := h.step hone'
    obtain ⟨hanswers, hcalls⟩ := ih hcall (happend ▸ hone)
    rw [answerEach_cons]
    refine ⟨fun k => ?_, happend ▸ hcalls⟩
    rcases k with _ | k
    · simp [hanswer]
    · simp [hanswers]

/-! ## The numbers of a run -/

section Expected

variable {name : String} {before : List TableCall} {call : TableCall} {i : Nat}

theorem exists_expected (name : String) (before : List TableCall) (h : call.registers) :
    ∃ i, expected name before call = .ok i := by
  cases call with
  | addConstant words => exact ⟨_, rfl⟩
  | addPattern sp => exact ⟨_, rfl⟩
  | getConstant words => cases h
  | getPattern sp => cases h

theorem expected_words {x : List UInt64} (hx : call.words? = some x)
    (hi : expected name before call = .ok i) : x ∈ registered words? (before ++ [call]) ∧
      (registered words? (before ++ [call])).eraseDups.idxOf x = i := by
  cases call with
  | addConstant words =>
    obtain rfl := Option.some.inj hx
    have hwords : registered words? (before ++ [.addConstant words]) =
        registered words? before ++ [words] := registered_concat rfl rfl
    rw [hwords]
    exact ⟨List.mem_append_right _ List.mem_cons_self, Except.ok.inj hi⟩
  | getConstant words =>
    obtain rfl := Option.some.inj hx
    rw [registered_concat_of_not rfl]
    rw [expected] at hi
    split_ifs at hi with hmem
    exact ⟨hmem, Except.ok.inj hi⟩
  | addPattern sp => cases hx
  | getPattern sp => cases hx

theorem expected_compressed {x : List Int64} (hx : call.compressed? = some x)
    (hi : expected name before call = .ok i) : x ∈ registered compressed? (before ++ [call]) ∧
      (registered compressed? (before ++ [call])).eraseDups.idxOf x = i := by
  rw [registered_compressed]
  cases call with
  | addConstant words => cases hx
  | getConstant words => cases hx
  | addPattern sp =>
    obtain rfl := Option.some.inj hx
    have hpatterns : registered pattern? (before ++ [.addPattern sp]) =
        registered pattern? before ++ [sp] := registered_concat rfl rfl
    rw [hpatterns]
    exact ⟨List.mem_map_of_mem (List.mem_append_right _ List.mem_cons_self), Except.ok.inj hi⟩
  | getPattern sp =>
    obtain rfl := Option.some.inj hx
    rw [registered_concat_of_not rfl]
    rw [expected] at hi
    split_ifs at hi with hmem
    exact ⟨List.mem_map_of_mem hmem, Except.ok.inj hi⟩

end Expected

section Numbers

variable {γ : Type} [BEq γ] {calls : List TableCall} {answers : List (Result Nat)}
  {about? : TableCall → Option γ} {table : Nat → List γ}

/-- The answers are the numbers in a table of what the calls are about, where the table is given
after each number of calls. -/
structure Numbers (calls : List TableCall) (answers : List (Result Nat))
    (about? : TableCall → Option γ) (table : Nat → List γ) : Prop where
  /-- Different contents are numbered in the order in which they are registered first. -/
  dense : ∀ k, table k = (registered about? (calls.take k)).eraseDups
  total : ∀ {k : Nat} {call : TableCall} {x : γ}, calls[k]? = some call → about? call = some x →
    call.registers → ∃ i, answers[k]? = some (.ok i)
  holds : ∀ {j k : Nat} {call : TableCall} {x : γ} {i : Nat}, calls[j]? = some call →
    about? call = some x → answers[j]? = some (.ok i) → j < k → (table k)[i]? = some x
  same_iff : ∀ {j k : Nat} {call call' : TableCall} {x y : γ} {i i' : Nat},
    calls[j]? = some call → about? call = some x → answers[j]? = some (.ok i) →
    calls[k]? = some call' → about? call' = some y → answers[k]? = some (.ok i') →
    (i = i' ↔ x = y)

theorem take_succ_of_getElem? {k : Nat} {call : TableCall} (hcall : calls[k]? = some call) :
    calls.take (k + 1) = calls.take k ++ [call] := by
  rw [List.take_add_one, hcall]
  rfl

/-- Calls that are answered as the calls before them say are numbered by content. -/
theorem Numbers.of_expected [LawfulBEq γ] {name : String}
    (hdense : ∀ k, table k = (registered about? (calls.take k)).eraseDups)
    (hanswers : ∀ {k : Nat} {call : TableCall}, calls[k]? = some call →
      answers[k]? = some (expected name (calls.take k) call))
    (hexpected : ∀ {before : List TableCall} {call : TableCall} {x : γ} {i : Nat},
      about? call = some x → expected name before call = .ok i →
        x ∈ registered about? (before ++ [call]) ∧
          (registered about? (before ++ [call])).eraseDups.idxOf x = i) :
    Numbers calls answers about? table := by
  -- A number that was given once is the place in the table after any more calls.
  have hlater : ∀ {j k : Nat} {call : TableCall} {x : γ} {i : Nat}, calls[j]? = some call →
      about? call = some x → answers[j]? = some (.ok i) → j < k →
        x ∈ registered about? (calls.take k) ∧
          (registered about? (calls.take k)).eraseDups.idxOf x = i := by
    intro j k call x i hcall hx hi hjk
    obtain ⟨hmem, hidx⟩ := hexpected hx (Option.some.inj ((hanswers hcall).symm.trans hi))
    rw [← take_succ_of_getElem? hcall] at hmem hidx
    have hpre : registered about? (calls.take (j + 1)) <+: registered about? (calls.take k) :=
      registered_mono (List.take_prefix_take_left (Nat.succ_le_of_lt hjk))
    exact ⟨hpre.subset hmem, (idxOf_eraseDups hpre hmem).symm.trans hidx⟩
  refine ⟨hdense, ?_, ?_, ?_⟩
  · intro k call x hcall _ hregisters
    obtain ⟨i, hi⟩ := exists_expected name (calls.take k) hregisters
    exact ⟨i, (hanswers hcall).trans (congrArg some hi)⟩
  · intro j k call x i hcall hx hi hjk
    obtain ⟨hmem, rfl⟩ := hlater hcall hx hi hjk
    rw [hdense]
    exact List.getElem?_idxOf (List.mem_eraseDups.2 hmem)
  · intro j k call call' x y i i' hcall hx hi hcall' hy hi'
    obtain ⟨hmem, rfl⟩ := hlater hcall hx hi (k := max j k + 1) (by omega)
    obtain ⟨-, rfl⟩ := hlater hcall' hy hi' (k := max j k + 1) (by omega)
    exact List.idxOf_inj (List.mem_eraseDups.2 hmem)

end Numbers

/-- The module with other hash functions for its tables. -/
def hashedBy (integerHash realHash : List UInt64 → UInt64) (m : CodeModule) : CodeModule :=
  { m with
    integers.kind.hash := integerHash
    reals.kind.hash := realHash }

theorem eq_of_create {o : Options} {name parent : String} {m : CodeModule}
    (hm : create o name parent = .ok m) : SameTables
      { options := o, name, logger := Log.named parent name } m :=
  (create_ok_iff.1 hm).2 ▸ SameTables.foldl sameTables_addInclude (initialIncludes o) _

theorem hashedBy_of_create {o : Options} {name parent : String} {m : CodeModule}
    (hm : create o name parent = .ok m) : m.hashedBy mixWords mixWords = m := by
  obtain ⟨_, _, _, _, rfl⟩ := eq_of_create hm
  rfl

theorem recorded_of_create {o : Options} {name parent : String} {m : CodeModule}
    (hm : create o name parent = .ok m) (integerHash realHash : List UInt64 → UInt64) :
    Recorded name [] (m.hashedBy integerHash realHash) := by
  obtain ⟨_, _, _, _, rfl⟩ := eq_of_create hm
  refine ⟨rfl, Pool.lists_empty Function.injective_id,
    Pool.lists_empty fun x y h => congrArg Int64.ofUInt64 h, fun key i => ?_⟩
  change none = some i ↔ _
  simp [registered]

/-- Whatever the hashes are, the tables number what is registered by its content, and there is a
number to ask for once the array, or the very pattern, is registered. The hashes of a new module are
one choice. -/
theorem tables_exact {o : Options} {name parent : String} {m₀ : CodeModule}
    (hm : create o name parent = .ok m₀) (integerHash realHash : List UInt64 → UInt64)
    (calls : List TableCall) (hone : OneEach (calls.filterMap pattern?)) :
    m₀.hashedBy mixWords mixWords = m₀ ∧
    let m := m₀.hashedBy integerHash realHash
    let answers := ((answerEach calls).run m).1
    let after := fun k => ((answerEach (calls.take k)).run m).2
    Numbers calls answers words? (fun k => (after k).reals.arrays) ∧
      Numbers calls answers compressed? (fun k => (after k).integers.arrays) ∧
      (∀ k words, calls[k]? = some (.getConstant words) → after (k + 1) = after k ∧
        (.addConstant words ∈ calls.take k ∧ (∃ i, answers[k]? = some (.ok i)) ∨
          .addConstant words ∉ calls.take k ∧ answers[k]? = some (.error (.missing
            (.registeredConstant (valuesText (words.map Float.ofBits)) name))))) ∧
      ∀ k sp, calls[k]? = some (.getPattern sp) → after (k + 1) = after k ∧
        (.addPattern sp ∈ calls.take k ∧ (∃ i, answers[k]? = some (.ok i)) ∨
          .addPattern sp ∉ calls.take k ∧ answers[k]? =
            some (.error (.missing (.registeredPattern sp.pattern.describe name)))) := by
  refine ⟨hashedBy_of_create hm, ?_⟩
  intro m answers after
  have hstart : Recorded name [] m := recorded_of_create hm integerHash realHash
  have hone' : ∀ k, OneEach ((calls.take k).filterMap pattern?) := fun k =>
    hone.mono ((List.take_prefix k calls).filterMap _).subset
  have hafter : ∀ k, Recorded name (calls.take k) (after k) := fun k =>
    (hstart.answerEach (hone' k)).2
  have hanswer : ∀ {k call}, calls[k]? = some call →
      answers[k]? = some (expected name (calls.take k) call) := by
    intro k call hcall
    have hk := (hstart.answerEach hone).1 k
    rwa [hcall] at hk
  have hlast : ∀ {k call}, calls[k]? = some call →
      after (k + 1) = ((answer call).run (after k)).2 := by
    intro k call hcall
    rw [← answerEach_concat, ← take_succ_of_getElem? hcall]
  refine ⟨.of_expected (fun k => (hafter k).reals.arrays) hanswer expected_words,
    .of_expected (fun k => (hafter k).integers.arrays) hanswer expected_compressed, ?_, ?_⟩
  · intro k words hcall
    refine ⟨hlast hcall, ?_⟩
    rw [hanswer hcall, expected, ← mem_registered_words]
    split_ifs with hmem
    · exact .inl ⟨hmem, _, rfl⟩
    · exact .inr ⟨hmem, rfl⟩
  · intro k sp hcall
    refine ⟨hlast hcall, ?_⟩
    rw [hanswer hcall, expected, ← mem_registered_pattern]
    split_ifs with hmem
    · exact .inl ⟨hmem, _, rfl⟩
    · exact .inr ⟨hmem, rfl⟩

/-- Zeros of both signs are two arrays, and so are words that are not a number in two ways. A
pattern with the entries of another one has the same table once it is registered itself. -/
theorem tables_exact_colliding : ∃ m₀, create {} "demo" "" = .ok m₀ ∧
    let calls : List TableCall := [.addConstant (wordsOf [0]), .addConstant (wordsOf [-0]),
      .getConstant (wordsOf [1]), .addPattern ⟨0, .scalar⟩, .getPattern ⟨1, .scalar⟩,
      .addPattern ⟨1, .scalar⟩, .addConstant [0x7ff8000000000000],
      .addConstant [0x7ff8000000000001]]
    let answers := ((answerEach calls).run (m₀.hashedBy (fun _ => 0) fun _ => 0)).1
    OneEach (calls.filterMap pattern?) ∧
      (∃ i j, answers[0]? = some (.ok i) ∧ answers[1]? = some (.ok j) ∧ i ≠ j) ∧
      (∃ i j, answers[6]? = some (.ok i) ∧ answers[7]? = some (.ok j) ∧ i ≠ j) ∧
      (∃ e, answers[2]? = some (.error (.missing e))) ∧
      (∃ e, answers[4]? = some (.error (.missing e))) ∧
      ∃ i, answers[3]? = some (.ok i) ∧ answers[5]? = some (.ok i) := by
  obtain ⟨m₀, hcreate⟩ : ∃ m₀, create {} "demo" "" = .ok m₀ :=
    ⟨_, create_ok_iff.2 ⟨⟨validate_options rfl rfl (by decide), by decide +kernel,
      by decide +kernel⟩, rfl⟩⟩
  refine ⟨m₀, hcreate, ?_⟩
  intro calls answers
  have hone : OneEach (calls.filterMap pattern?) := by
    have hsps : calls.filterMap pattern? = [⟨0, .scalar⟩, ⟨1, .scalar⟩, ⟨1, .scalar⟩] := rfl
    rw [hsps]
    intro sp hsp sp' hsp'
    simp only [List.mem_cons, List.not_mem_nil, or_false, or_self] at hsp hsp'
    rcases hsp with rfl | rfl <;> rcases hsp' with rfl | rfl <;> simp
  obtain ⟨-, hreals, hintegers, hconstant, hpattern⟩ :=
    tables_exact hcreate (fun _ => 0) (fun _ => 0) calls hone
  have hapart : ∀ {j k : Nat} {words words' : List UInt64},
      calls[j]? = some (.addConstant words) → calls[k]? = some (.addConstant words') →
      words ≠ words' → ∃ a b, answers[j]? = some (.ok a) ∧ answers[k]? = some (.ok b) ∧ a ≠ b := by
    intro j k words words' hj hk hne
    obtain ⟨a, ha⟩ := hreals.total hj rfl rfl
    obtain ⟨b, hb⟩ := hreals.total hk rfl rfl
    exact ⟨a, b, ha, hb, fun hab => hne ((hreals.same_iff hj rfl ha hk rfl hb).1 hab)⟩
  obtain ⟨a, ha⟩ := hintegers.total (k := 3) rfl rfl rfl
  obtain ⟨b, hb⟩ := hintegers.total (k := 5) rfl rfl rfl
  refine ⟨hone, hapart (j := 0) (k := 1) rfl rfl (by decide),
    hapart (j := 6) (k := 7) rfl rfl (by decide), ?_, ?_, a, ha, ?_⟩
  · obtain ⟨-, ⟨hmem, -⟩ | ⟨-, herror⟩⟩ := hconstant 2 _ rfl
    · have hwords : wordsOf [1] ∉ [wordsOf [0], wordsOf [-0]] := by decide
      simp [calls] at hmem hwords
      exact (hmem.elim hwords.1 hwords.2).elim
    · exact ⟨_, herror⟩
  · obtain ⟨-, ⟨hmem, -⟩ | ⟨-, herror⟩⟩ := hpattern 4 _ rfl
    · simp [calls] at hmem
    · exact ⟨_, herror⟩
  · obtain rfl := (hintegers.same_iff (j := 3) (k := 5) rfl rfl ha rfl rfl hb).2 rfl
    exact hb

end Tangent.CodeModule
