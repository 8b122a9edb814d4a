import Mathlib
import Tangent.Numeric.Double
import Tangent.Routine.Validate

/-!
# Running a routine

The scalar instructions of a routine, as steps on a memory : the slots, and the nonzeros of the
outputs. Whatever would read or write beside the memory or beside the arguments does not run at
all, so a routine that runs to its end has stayed within its slots. An instruction that runs also
passes the checks of `Routine.validate` (`Instr.issues_of_run?`).
-/

set_option linter.unusedSectionVars false

namespace Tangent

variable {K : Type}

/-- The index that a machine integer stands for. -/
def index? (i : Int64) : Option Nat :=
  if 0 ≤ i then some i.toNatClampNeg else none

theorem index?_ofNat {n : Nat} (h : n < 2 ^ 63) : index? (Int64.ofNat n) = some n := by
  rw [index?, if_pos (Int64.zero_le_ofNat_of_lt h), Int64.toNatClampNeg_ofNat_of_lt h]

theorem index?_eq_some {i : Int64} {n : Nat} (h : index? i = some n) :
    0 ≤ i ∧ i.toNatClampNeg = n := by
  unfold index? at h
  split_ifs at h with hi
  exact ⟨hi, Option.some.inj h⟩

/-- What a running routine works on. -/
structure Memory (K : Type) where
  slots : Array K
  /-- The nonzeros of each output. -/
  results : List (List K)

namespace Memory

def read? (m : Memory K) (slot : Int64) : Option K :=
  (index? slot).bind (m.slots[·]?)

def write? (m : Memory K) (slot : Int64) (v : K) : Option (Memory K) := do
  let i ← index? slot
  if i < m.slots.size then some { m with slots := m.slots.setIfInBounds i v } else none

/-- Write a nonzero of an output. -/
def store? (m : Memory K) (res nonzero : Int64) (v : K) : Option (Memory K) := do
  let i ← index? res
  let k ← index? nonzero
  let row ← m.results[i]?
  if k < row.length then some { m with results := m.results.set i (row.set k v) } else none

/-- The two memories have as many slots, and as many nonzeros of each output. -/
def SameShape (m m' : Memory K) : Prop :=
  m'.slots.size = m.slots.size ∧ m'.results.map List.length = m.results.map List.length

theorem SameShape.trans {m m' m'' : Memory K} (h : SameShape m m') (h' : SameShape m' m'') :
    SameShape m m'' :=
  ⟨h'.1.trans h.1, h'.2.trans h.2⟩

theorem read?_ofNat (m : Memory K) {i : Nat} (hi : i < 2 ^ 63) :
    m.read? (Int64.ofNat i) = m.slots[i]? := by
  simp [read?, index?_ofNat hi]

theorem write?_ofNat (m : Memory K) {i : Nat} (hi : i < 2 ^ 63) (hlt : i < m.slots.size) (v : K) :
    m.write? (Int64.ofNat i) v = some { m with slots := m.slots.setIfInBounds i v } := by
  simp [write?, index?_ofNat hi, hlt]

theorem store?_ofNat (m : Memory K) {i k : Nat} (hi : i < 2 ^ 63) (hk : k < 2 ^ 63)
    {row : List K} (hrow : m.results[i]? = some row) (hlt : k < row.length) (v : K) :
    m.store? (Int64.ofNat i) (Int64.ofNat k) v =
      some { m with results := m.results.set i (row.set k v) } := by
  simp [store?, index?_ofNat hi, index?_ofNat hk, hrow, hlt]

theorem write?_eq_some {m m' : Memory K} {slot : Int64} {v : K} (h : m.write? slot v = some m') :
    ∃ i, index? slot = some i ∧ i < m.slots.size ∧
      m' = { m with slots := m.slots.setIfInBounds i v } := by
  obtain ⟨i, hi, h⟩ := Option.bind_eq_some_iff.1 h
  split_ifs at h with hlt
  exact ⟨i, hi, hlt, (Option.some.inj h).symm⟩

theorem store?_eq_some {m m' : Memory K} {res nonzero : Int64} {v : K}
    (h : m.store? res nonzero v = some m') :
    ∃ i k row, index? res = some i ∧ index? nonzero = some k ∧ m.results[i]? = some row ∧
      k < row.length ∧ m' = { m with results := m.results.set i (row.set k v) } := by
  obtain ⟨i, hi, h⟩ := Option.bind_eq_some_iff.1 h
  obtain ⟨k, hk, h⟩ := Option.bind_eq_some_iff.1 h
  obtain ⟨row, hrow, h⟩ := Option.bind_eq_some_iff.1 h
  split_ifs at h with hlt
  exact ⟨i, k, row, hi, hk, hrow, hlt, (Option.some.inj h).symm⟩

end Memory

/-! ## Instructions -/

namespace Instr

variable [Scalar K]

/-- One scalar instruction. The other instructions do not run here. -/
def run? (args : List (List K)) (m : Memory K) : Instr K → Option (Memory K)
  | input slot arg nonzero => do
    let row ← (index? arg).bind (args[·]?)
    m.write? slot (← (index? nonzero).bind (row[·]?))
  | const slot v => m.write? slot v
  | apply c slot x y => do m.write? slot (← c.eval? (← m.read? x) (← m.read? y))
  | output res nonzero slot => do m.store? res nonzero (← m.read? slot)
  | _ => none

/-- Instructions, one after the other. -/
def runAll? (args : List (List K)) (body : List (Instr K)) (m : Memory K) : Option (Memory K) :=
  body.foldlM (run? args) m

/-- The output nonzero that an instruction writes. -/
def place? : Instr K → Option (Int64 × Int64)
  | output res nonzero _ => some (res, nonzero)
  | _ => none

theorem runAll?_append (args : List (List K)) (xs ys : List (Instr K)) (m : Memory K) :
    runAll? args (xs ++ ys) m = (runAll? args xs m).bind (runAll? args ys) := by
  rw [runAll?, List.foldlM_append]
  rfl

theorem sameShape_of_write? {m m' : Memory K} {slot : Int64} {v : K}
    (h : m.write? slot v = some m') : m.SameShape m' := by
  obtain ⟨i, -, -, rfl⟩ := Memory.write?_eq_some h
  exact ⟨by simp, rfl⟩

theorem sameShape_of_store? {m m' : Memory K} {res nonzero : Int64} {v : K}
    (h : m.store? res nonzero v = some m') : m.SameShape m' := by
  obtain ⟨i, k, row, -, -, hrow, -, rfl⟩ := Memory.store?_eq_some h
  refine ⟨rfl, ?_⟩
  simp only [List.map_set, List.length_set]
  refine List.ext_getElem? fun j => ?_
  rw [List.getElem?_set]
  split_ifs with hj hlt
  · subst hj
    simp [hrow]
  · subst hj
    simp only [List.length_map, Nat.not_lt] at hlt
    simp [List.getElem?_eq_none hlt]
  · rfl

/-- Running keeps the shape of the memory. -/
theorem sameShape_of_run? {args : List (List K)} {m m' : Memory K} {instr : Instr K}
    (h : run? args m instr = some m') : m.SameShape m' := by
  cases instr with
  | input slot arg nonzero =>
    obtain ⟨row, -, h⟩ := Option.bind_eq_some_iff.1 h
    obtain ⟨v, -, h⟩ := Option.bind_eq_some_iff.1 h
    exact sameShape_of_write? h
  | const slot v => exact sameShape_of_write? h
  | apply c slot x y =>
    obtain ⟨vx, -, h⟩ := Option.bind_eq_some_iff.1 h
    obtain ⟨vy, -, h⟩ := Option.bind_eq_some_iff.1 h
    obtain ⟨v, -, h⟩ := Option.bind_eq_some_iff.1 h
    exact sameShape_of_write? h
  | output res nonzero slot =>
    obtain ⟨v, -, h⟩ := Option.bind_eq_some_iff.1 h
    exact sameShape_of_store? h
  | _ => cases h

/-- Every instruction of a body that runs to its end runs, on a memory of the same shape. -/
theorem run?_of_runAll? {args : List (List K)} :
    ∀ {body : List (Instr K)} {m m' : Memory K}, runAll? args body m = some m' →
      ∀ instr ∈ body, ∃ m₁ m₂, m.SameShape m₁ ∧ run? args m₁ instr = some m₂
  | [], m, m', _, instr, hi => by simp at hi
  | first :: body, m, m', h, instr, hi => by
    obtain ⟨mid, hmid, h⟩ := Option.bind_eq_some_iff.1 h
    rcases List.mem_cons.1 hi with rfl | hi
    · exact ⟨m, mid, ⟨rfl, rfl⟩, hmid⟩
    · obtain ⟨m₁, m₂, hs, hr⟩ := run?_of_runAll? h instr hi
      exact ⟨m₁, m₂, (sameShape_of_run? hmid).trans hs, hr⟩

end Instr

/-! ## Routines -/

namespace Routine

/-- The memory has the slots of the routine, and arguments and results have its shape. -/
structure Hosts (f : Routine K) (args : List (List K)) (m : Memory K) : Prop where
  slots : m.slots.size = f.scalars.toNatClampNeg
  args : args.map List.length = f.inputs.map (nonzeros [·])
  results : m.results.map List.length = f.outputs.map (nonzeros [·])

/-- The arguments of a routine, and their nonzeros, can be numbered by machine integers. -/
structure Addressable (f : Routine K) : Prop where
  inputs : f.inputs.length < 2 ^ 63
  outputs : f.outputs.length < 2 ^ 63
  inputNonzeros : ∀ sp ∈ f.inputs, nonzeros [sp] < 2 ^ 63
  outputNonzeros : ∀ sp ∈ f.outputs, nonzeros [sp] < 2 ^ 63

variable {f : Routine K}

theorem slotIssues_eq_nil {slot : Int64} {i : Nat} (what : String) (hi : index? slot = some i)
    (hlt : i < f.scalars.toNatClampNeg) : f.slotIssues what slot = [] := by
  obtain ⟨h0, rfl⟩ := index?_eq_some hi
  have hpos : 0 ≤ f.scalars := by
    have : 0 < f.scalars := by
      rw [← Int64.toNatClampNeg_pos_iff]
      omega
    exact Int64.le_of_lt this
  have : slot < f.scalars := by
    rw [Int64.lt_iff_toInt_lt, Int64.toInt_eq_toNatClampNeg h0, Int64.toInt_eq_toNatClampNeg hpos]
    exact_mod_cast hlt
  simp [slotIssues, Int64.not_lt.2 h0, Int64.not_le.2 this]

theorem not_ofNat_le {i : Int64} {n k : Nat} (hi : index? i = some k) (hk : k < n)
    (hn : n < 2 ^ 63) : ¬Int64.ofNat n ≤ i := by
  obtain ⟨h0, rfl⟩ := index?_eq_some hi
  rw [← Int64.ofNat_toNatClampNeg i h0, Int64.ofNat_le_iff_le hn (by omega)]
  omega

/-- A nonzero that is there, read into or from a slot that is there, is fine. -/
theorem nonzeroIssues_eq_nil {patterns : List (Option SharedPattern)} {arg nonzero slot : Int64}
    {a k i : Nat} {sp : Option SharedPattern} (side : Side) (what : String)
    (ha : index? arg = some a) (hk : index? nonzero = some k) (hi : index? slot = some i)
    (hsp : patterns[a]? = some sp) (hlt : k < nonzeros [sp])
    (hslot : i < f.scalars.toNatClampNeg) (hlen : patterns.length < 2 ^ 63)
    (hnnz : ∀ sp ∈ patterns, nonzeros [sp] < 2 ^ 63) :
    f.nonzeroIssues side patterns arg nonzero what slot = [] := by
  have halt := (List.getElem?_eq_some_iff.1 hsp).1
  have h1 := not_ofNat_le ha halt hlen
  have h2 := not_ofNat_le hk hlt (hnnz sp (List.mem_of_getElem? hsp))
  obtain ⟨ha0, rfl⟩ := index?_eq_some ha
  obtain ⟨hk0, rfl⟩ := index?_eq_some hk
  simp only [nonzeroIssues, Int64.not_lt.2 ha0, h1, decide_false, Bool.or_false,
    Bool.false_eq_true, ↓reduceIte, hsp, Option.join_some, Int64.not_lt.2 hk0, h2]
  exact slotIssues_eq_nil what hi hslot

theorem exists_pattern {patterns : List (Option SharedPattern)} {rows : List (List K)} {a : Nat}
    {row : List K} (h : rows.map List.length = patterns.map (nonzeros [·]))
    (hrow : rows[a]? = some row) : ∃ sp, patterns[a]? = some sp ∧ nonzeros [sp] = row.length := by
  have := congrArg (·[a]?) h
  simp only [List.getElem?_map, hrow, Option.map_some] at this
  exact Option.map_eq_some_iff.1 this.symm

end Routine

/-- An instruction that runs refers to what is there. -/
theorem Instr.issues_of_run? [Scalar K] {f : Routine K} {args : List (List K)} {m m' : Memory K}
    {instr : Instr K} (hf : f.Addressable) (hm : f.Hosts args m)
    (h : run? args m instr = some m') : instr.issues f = .ok [] := by
  cases instr with
  | input slot arg nonzero =>
    obtain ⟨row, hrow, h⟩ := Option.bind_eq_some_iff.1 h
    obtain ⟨v, hv, h⟩ := Option.bind_eq_some_iff.1 h
    obtain ⟨a, ha, hrow⟩ := Option.bind_eq_some_iff.1 hrow
    obtain ⟨k, hk, hv⟩ := Option.bind_eq_some_iff.1 hv
    obtain ⟨i, hi, hlt, -⟩ := Memory.write?_eq_some h
    obtain ⟨sp, hsp, hlen⟩ := Routine.exists_pattern hm.args hrow
    have hklt := (List.getElem?_eq_some_iff.1 hv).1
    rw [issues, Routine.nonzeroIssues_eq_nil .input "result" ha hk hi hsp (hlen ▸ hklt)
      (hm.slots ▸ hlt) hf.inputs hf.inputNonzeros]
    rfl
  | const slot v =>
    obtain ⟨i, hi, hlt, -⟩ := Memory.write?_eq_some h
    rw [issues, Routine.slotIssues_eq_nil "result" hi (hm.slots ▸ hlt)]
    rfl
  | apply c slot x y =>
    obtain ⟨vx, hx, h⟩ := Option.bind_eq_some_iff.1 h
    obtain ⟨vy, hy, h⟩ := Option.bind_eq_some_iff.1 h
    obtain ⟨v, hv, h⟩ := Option.bind_eq_some_iff.1 h
    obtain ⟨i, hi, hlt, -⟩ := Memory.write?_eq_some h
    obtain ⟨ix, hix, hx⟩ := Option.bind_eq_some_iff.1 hx
    obtain ⟨iy, hiy, hy⟩ := Option.bind_eq_some_iff.1 hy
    have hxlt := (Array.getElem?_eq_some_iff.1 hx).1
    have hylt := (Array.getElem?_eq_some_iff.1 hy).1
    have hs := Routine.slotIssues_eq_nil "result" hi (hm.slots ▸ hlt)
    have hsx := Routine.slotIssues_eq_nil "operand" hix (hm.slots ▸ hxlt)
    have hsy := Routine.slotIssues_eq_nil "operand" hiy (hm.slots ▸ hylt)
    rw [Opcode.eval?] at hv
    rw [issues]
    generalize c.op? = op at hv ⊢
    rcases op with _ | _ | _ | u | b
    · cases hv
    · cases hv
    · cases hv
    · rw [hs, hsx]
      rfl
    · rw [hs, hsx, hsy]
      rfl
  | output res nonzero slot =>
    obtain ⟨v, hv, h⟩ := Option.bind_eq_some_iff.1 h
    obtain ⟨i, hi, hv⟩ := Option.bind_eq_some_iff.1 hv
    obtain ⟨a, k, row, ha, hk, hrow, hklt, -⟩ := Memory.store?_eq_some h
    obtain ⟨sp, hsp, hlen⟩ := Routine.exists_pattern hm.results hrow
    have hilt := (Array.getElem?_eq_some_iff.1 hv).1
    rw [issues, Routine.nonzeroIssues_eq_nil .output "operand" ha hk hi hsp (hlen ▸ hklt)
      (hm.slots ▸ hilt) hf.outputs hf.outputNonzeros]
    rfl
  | _ => cases h

theorem missingPatterns_eq_nil {operands : List (String × Option SharedPattern)}
    (h : ∀ p ∈ operands, p.2.isSome) : missingPatterns operands = [] := by
  rw [missingPatterns, List.filterMap_eq_nil_iff]
  rintro ⟨what, sp⟩ hp
  have hsp : sp.isSome := h _ hp
  simp [Option.isNone_eq_false_iff.2 hsp]

namespace Routine

theorem missingArguments_eq_nil (side : Side) {patterns : List (Option SharedPattern)}
    (h : ∀ sp ∈ patterns, sp.isSome) : missingArguments side patterns = [] := by
  refine missingPatterns_eq_nil fun p hp => ?_
  obtain ⟨⟨sp, i⟩, hsp, rfl⟩ := List.mem_map.1 hp
  exact h sp (List.mem_of_getElem? (List.mk_mem_zipIdx_iff_getElem?.1 hsp))

theorem filterMapM_eq_nil {α β ε : Type} {g : α → Except ε (Option β)} :
    ∀ {xs : List α}, (∀ x ∈ xs, g x = .ok none) → xs.filterMapM g = .ok []
  | [], _ => by simp [pure, Except.pure]
  | x :: xs, h => by
    rw [List.filterMapM_cons, h x List.mem_cons_self]
    exact filterMapM_eq_nil fun y hy => h y (List.mem_cons_of_mem _ hy)

/-- A routine with a name and patterns that runs to its end passes the checks. -/
theorem validate_of_runAll? [Scalar K] {f : Routine K} {args : List (List K)} {m m' : Memory K}
    (hname : isIdentifier f.name) (hin : ∀ sp ∈ f.inputs, sp.isSome)
    (hout : ∀ sp ∈ f.outputs, sp.isSome) (hf : f.Addressable) (hm : f.Hosts args m)
    (h : Instr.runAll? args f.body m = some m') : f.validate = .ok () := by
  have hinstr : ∀ p ∈ f.body.zipIdx, f.instrError p.1 p.2 = .ok none := by
    rintro ⟨instr, i⟩ hp
    have hmem := List.mem_of_getElem? (List.mk_mem_zipIdx_iff_getElem?.1 hp)
    obtain ⟨m₁, m₂, hs, hr⟩ := Instr.run?_of_runAll? h instr hmem
    have hm₁ : f.Hosts args m₁ :=
      ⟨hs.1.trans hm.slots, hm.args, hs.2.trans hm.results⟩
    simp only [instrError, Instr.issues_of_run? hf hm₁ hr]
    rfl
  unfold validate
  rw [missingArguments_eq_nil .input hin, missingArguments_eq_nil .output hout,
    filterMapM_eq_nil hinstr]
  simp [hname, Error.combine?, pure, Except.pure, bind, Except.bind]

end Routine

end Tangent
