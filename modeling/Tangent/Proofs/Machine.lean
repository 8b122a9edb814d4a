import Mathlib
import Tangent.CodeModule.Stmt
import Tangent.Pattern.Compress
import Tangent.Proofs.Run

/-!
# The memory of a routine

What every instruction of a routine reads and writes, one element after the other: scalar slots, the
two work vectors, the nonzeros of inputs and outputs, constants, and the tables of the patterns. A
place is an integer, and nothing is there to be read or written outside of a list, so an instruction
that leaves its memory does not run to its end.

On the scalar instructions alone, this is what `Instr.run?` does to a memory of slots and results
(`Routine.exec_of_runAll?`).

The support routines walk through a matrix by the table of its pattern. A table holds the sizes of
the pattern, and then either a one, which says that every place is a nonzero, or the offsets and the
rows.
-/

namespace Tangent

open CodeModule (Layout)

/-! ## Places -/

/-- The element at a place, if it is there. -/
def elementAt? {α : Type} (xs : List α) (i : Int) : Option α :=
  if 0 ≤ i then xs[i.toNat]? else none

/-- The list with another element at a place, if that is there. -/
def replaceAt? {α : Type} (xs : List α) (i : Int) (v : α) : Option (List α) :=
  if 0 ≤ i ∧ i < xs.length then some (xs.set i.toNat v) else none

section Places

variable {α : Type} {xs : List α}

theorem elementAt?_ofNat (xs : List α) (i : Nat) : elementAt? xs (i : Int) = xs[i]? := by
  simp [elementAt?]

theorem exists_elementAt? {i : Int} (h0 : 0 ≤ i) (hi : i < xs.length) :
    ∃ v, elementAt? xs i = some v := by
  rw [elementAt?, if_pos h0]
  exact ⟨_, List.getElem?_eq_getElem (by omega)⟩

theorem replaceAt?_eq {i : Int} (h0 : 0 ≤ i) (hi : i < xs.length) (v : α) :
    replaceAt? xs i v = some (xs.set i.toNat v) :=
  if_pos ⟨h0, hi⟩

theorem elementAt?_set {i j : Int} (h0 : 0 ≤ i) (hi : i < xs.length) (v : α) :
    elementAt? (xs.set i.toNat v) j = if i = j then some v else elementAt? xs j := by
  by_cases hij : i = j
  · subst hij
    rw [elementAt?, if_pos h0, if_pos rfl, List.getElem?_set_self (by omega)]
  · rw [if_neg hij, elementAt?, elementAt?]
    split_ifs with hj
    · rw [List.getElem?_set_ne (by omega)]
    · rfl

end Places

/-- What a routine can write to. -/
structure Machine (K : Type) where
  slots : List K
  work : List K
  iwork : List Int
  /-- The nonzeros of each output that the caller wants. -/
  results : List (Option (List K))

/-- What a routine finds when it is called. -/
structure Call (K : Type) where
  /-- The nonzeros of each input. One that is missing reads as zeros. -/
  args : List (Option (List K))
  /-- The functions that are defined elsewhere. -/
  external : String → List K → K
  /-- A place in a vector as a number. -/
  ofPlace : Int → K

/-- Steps that read and write the memory, as long as they stay in it. -/
abbrev Exec (K : Type) := StateT (Machine K) Option

namespace Exec

variable {K α β : Type}

/-- Something that does not depend on the memory. -/
def given (o : Option α) : Exec K α := fun m =>
  o.map (·, m)

/-- Read an element of a part of the memory. -/
def read (part : Machine K → List α) (i : Int) : Exec K α := fun m =>
  (elementAt? (part m) i).map (·, m)

/-- Write an element of a part of the memory. -/
def write (part : Machine K → List α) (put : Machine K → List α → Machine K) (i : Int) (v : α) :
    Exec K Unit := fun m =>
  (replaceAt? (part m) i v).map fun xs => ((), put m xs)

def readWork (i : Int) : Exec K K :=
  read (·.work) i

def writeWork (i : Int) (v : K) : Exec K Unit :=
  write (·.work) (fun m work => { m with work }) i v

def readIWork (i : Int) : Exec K Int :=
  read (·.iwork) i

def writeIWork (i v : Int) : Exec K Unit :=
  write (·.iwork) (fun m iwork => { m with iwork }) i v

def readResult (i : Int) : Exec K (Option (List K)) :=
  read (·.results) i

def writeResult (i : Int) (row : List K) : Exec K Unit :=
  write (·.results) (fun m results => { m with results }) i (some row)

def readSlot : Layout → Int64 → Exec K K
  | .locals, i => read (·.slots) i.toInt
  | .inWork offset, i => readWork (offset + i).toInt

def writeSlot : Layout → Int64 → K → Exec K Unit
  | .locals, i, v => write (·.slots) (fun m slots => { m with slots }) i.toInt v
  | .inWork offset, i, v => writeWork (offset + i).toInt v

/-- Run a step at every place from `start` up to `stop`, and hand a value on. -/
def loop (start stop : Int) (init : β) (step : β → Int → Exec K β) : Exec K β :=
  (List.range (stop - start).toNat).foldlM (fun b (i : Nat) => step b (start + i)) init

/-! ## Vectors -/

section Vectors

/-- Write `n` elements at `y`, one after the other. -/
def copy (source : Int → Exec K K) (n : Int) (y : Int) : Exec K Unit :=
  loop 0 n () fun _ i => do writeWork (y + i) (← source i)

def swap (n x y : Int) : Exec K Unit :=
  loop 0 n () fun _ i => do
    let t ← readWork (x + i)
    writeWork (x + i) (← readWork (y + i))
    writeWork (y + i) t

variable [Scalar K]

def add (a b : K) : K := Scalar.binary .add a b

def mul (a b : K) : K := Scalar.binary .mul a b

def scale (n : Int) (alpha : K) (x : Int) : Exec K Unit :=
  loop 0 n () fun _ i => do writeWork (x + i) (mul (← readWork (x + i)) alpha)

def axpy (n : Int) (alpha : K) (x y : Int) : Exec K Unit :=
  loop 0 n () fun _ i => do
    writeWork (y + i) (add (← readWork (y + i)) (mul alpha (← readWork (x + i))))

def dot (n x y : Int) : Exec K K :=
  loop 0 n Scalar.zero fun r i => do
    return add r (mul (← readWork (x + i)) (← readWork (y + i)))

def sumOfAbs (n x : Int) : Exec K K :=
  loop 0 n Scalar.zero fun r i => do
    return add r (Scalar.unary .fabs (← readWork (x + i)))

/-- The place of the first of the greatest absolute values, or `-1` if there is none. -/
def placeOfMax (n x : Int) : Exec K Int := do
  let found ← loop 0 n (-1, Scalar.literal .negOne) fun found i => do
    let t := Scalar.unary .fabs (← readWork (x + i))
    return if Scalar.isZero (Scalar.binary .lt found.2 t) then found else (i, t)
  return found.1

def norm (n x : Int) : Exec K K := do
  let r ← loop 0 n Scalar.zero fun r i => do
    let v ← readWork (x + i)
    return add r (mul v v)
  return Scalar.unary .sqrt r

def reduce (ofPlace : Int → K) : Reduction → Int → Int → Exec K K
  | .asum, n, x => sumOfAbs n x
  | .iamax, n, x => ofPlace <$> placeOfMax n x
  | .nrm2, n, x => norm n x

end Vectors

/-! ## Tables -/

/-- A number in the table of a pattern. -/
def number? (table : List Int64) (i : Int) : Option Int :=
  (elementAt? table i).map Int64.toInt

def nrow? (table : List Int64) : Option Int := number? table 0

def ncol? (table : List Int64) : Option Int := number? table 1

/-- Every place is a nonzero. -/
def short? (table : List Int64) : Option Bool :=
  (number? table 2).map (· == 1)

/-- Where column `c` starts. -/
def columnStart? (table : List Int64) (c : Int) : Option Int := do
  if ← short? table then return c * (← nrow? table) else number? table (2 + c)

/-- Where column `c` ends. -/
def columnStop? (table : List Int64) (c : Int) : Option Int := do
  if ← short? table then return (c + 1) * (← nrow? table) else number? table (3 + c)

/-- The row of nonzero `k`, which is in column `c`. -/
def row? (table : List Int64) (c k : Int) : Option Int := do
  if ← short? table then return k - c * (← nrow? table)
  else number? table (3 + (← ncol? table) + k)

/-- Run a step at every nonzero of column `c`. -/
def overColumn (table : List Int64) (c : Int) (init : β) (step : β → Int → Exec K β) :
    Exec K β := do
  loop (← given (columnStart? table c)) (← given (columnStop? table c)) init step

/-! ## Matrices -/

section Matrices

/-- Copy a matrix into another pattern, with a column at `w`. -/
def project [Scalar K] (x : Int) (tx : List Int64) (y : Int) (ty : List Int64) (w : Int) :
    Exec K Unit := do
  loop 0 (← given (ncol? tx)) () fun _ c => do
    overColumn ty c () fun _ k => do
      writeWork (w + (← given (row? ty c k))) Scalar.zero
    overColumn tx c () fun _ k => do
      writeWork (w + (← given (row? tx c k))) (← readWork (x + k))
    overColumn ty c () fun _ k => do
      writeWork (y + k) (← readWork (w + (← given (row? ty c k))))

/-- Put nonzero `k`, which is in column `c`, to the next free place of its row. -/
def placeNonzero (x : Int) (tx : List Int64) (y w c k : Int) : Exec K Unit := do
  let r ← given (row? tx c k)
  let j ← readIWork (w + r)
  writeIWork (w + r) (j + 1)
  writeWork (y + j) (← readWork (x + k))

/-- Transpose a matrix, with the next free place of each row in the integer work vector at `w`. -/
def transpose (x : Int) (tx : List Int64) (y : Int) (ty : List Int64) (w : Int) :
    Exec K Unit := do
  loop 0 (← given (ncol? ty)) () fun _ c => do
    writeIWork (w + c) (← given (columnStart? ty c))
  loop 0 (← given (ncol? tx)) () fun _ c => do
    overColumn tx c () fun _ k => placeNonzero x tx y w c k

variable [Scalar K]

/-- Add the term of nonzero `k`, which is in column `c`. -/
def bilinearTerm (a : Int) (ta : List Int64) (x y c : Int) (r : K) (k : Int) : Exec K K := do
  let vx ← readWork (x + (← given (row? ta c k)))
  return add r (mul (mul vx (← readWork (a + k))) (← readWork (y + c)))

def bilinear (a : Int) (ta : List Int64) (x y : Int) : Exec K K := do
  loop 0 (← given (ncol? ta)) Scalar.zero fun r c =>
    overColumn ta c r (bilinearTerm a ta x y c)

def rankOne (a : Int) (ta : List Int64) (alpha : K) (x y : Int) : Exec K Unit := do
  loop 0 (← given (ncol? ta)) () fun _ c => do
    overColumn ta c () fun _ k => do
      let vx ← readWork (x + (← given (row? ta c k)))
      writeWork (a + k)
        (add (← readWork (a + k)) (mul (mul alpha vx) (← readWork (y + c))))

/-- Add a product to a matrix, with a column of the result at `w`. -/
def multiply (x : Int) (tx : List Int64) (y : Int) (ty : List Int64) (z : Int)
    (tz : List Int64) (w : Int) : Exec K Unit := do
  loop 0 (← given (ncol? ty)) () fun _ c => do
    overColumn tz c () fun _ k => do
      writeWork (w + (← given (row? tz c k))) (← readWork (z + k))
    overColumn ty c () fun _ k => do
      let r ← given (row? ty c k)
      overColumn tx r () fun _ k₁ => do
        let i := w + (← given (row? tx r k₁))
        writeWork i (add (← readWork i) (mul (← readWork (x + k₁)) (← readWork (y + k))))
    overColumn tz c () fun _ k => do
      writeWork (z + k) (← readWork (w + (← given (row? tz c k))))

/-- Add a product whose first factor is transposed to a matrix, with a column of the second factor
at `w`. -/
def multiplyTransposed (x : Int) (tx : List Int64) (y : Int) (ty : List Int64) (z : Int)
    (tz : List Int64) (w : Int) : Exec K Unit := do
  let nrow ← given (nrow? ty)
  loop 0 (← given (ncol? tz)) () fun _ c => do
    loop 0 nrow () fun _ r => writeWork (w + r) Scalar.zero
    overColumn ty c () fun _ k => do
      writeWork (w + (← given (row? ty c k))) (← readWork (y + k))
    overColumn tz c () fun _ k => do
      let r ← given (row? tz c k)
      overColumn tx r () fun _ k₁ => do
        let vw ← readWork (w + (← given (row? tx r k₁)))
        writeWork (z + k) (add (← readWork (z + k)) (mul (← readWork (x + k₁)) vw))

end Matrices

end Exec

/-! ## Instructions -/

namespace Call

variable {K : Type} [Scalar K]

/-- A nonzero of an input. -/
def nonzero? (call : Call K) (arg nonzero : Int64) : Option K := do
  match ← elementAt? call.args arg.toInt with
  | none => some Scalar.zero
  | some row => elementAt? row nonzero.toInt

end Call

namespace Instr

open Exec

/-- The table of an operand, as it is printed. -/
def table? (sp : Option SharedPattern) : Option (List Int64) :=
  sp.map (·.pattern.compress)

variable {K : Type} [Scalar K]

/-- What an instruction does, with the scalar slots laid out in the given way. -/
def exec (layout : Layout) (call : Call K) : Instr K → Exec K Unit
  | input slot arg nonzero => do writeSlot layout slot (← given (call.nonzero? arg nonzero))
  | output res nonzero slot => do
    -- An output that the caller does not want is left alone.
    match ← readResult res.toInt with
    | none => pure ()
    | some row =>
      writeResult res.toInt
        (← given (replaceAt? row nonzero.toInt (← readSlot layout slot)))
  | const slot v => writeSlot layout slot v
  | apply c slot x y =>
    match c.op? with
    | some (.unary u) => do writeSlot layout slot (Scalar.unary u (← readSlot layout x))
    | some (.binary b) => do
      writeSlot layout slot (Scalar.binary b (← readSlot layout x) (← readSlot layout y))
    | _ => given none
  | gather slot offset => do writeSlot layout slot (← readWork offset.toInt)
  | scatter offset slot => do writeWork offset.toInt (← readSlot layout slot)
  | constArray offset values =>
    Exec.copy (fun i => given (elementAt? values i)) (Int64.ofNat values.length).toInt
      offset.toInt
  | constElement slot values index => do
    writeSlot layout slot (← given (elementAt? values index.toInt))
  | fill offset n v => Exec.copy (fun _ => pure v) n.toInt offset.toInt
  | copy source n target => Exec.copy (fun i => readWork (source.toInt + i)) n.toInt target.toInt
  | swap n x y => Exec.swap n.toInt x.toInt y.toInt
  | scale n alpha x => do Exec.scale n.toInt (← readSlot layout alpha) x.toInt
  | axpy n alpha x y => do Exec.axpy n.toInt (← readSlot layout alpha) x.toInt y.toInt
  | dot slot n x y => do writeSlot layout slot (← Exec.dot n.toInt x.toInt y.toInt)
  | reduce kind slot n x => do
    writeSlot layout slot (← Exec.reduce call.ofPlace kind n.toInt x.toInt)
  | bilinear slot a sp x y => do
    let table ← given (table? sp)
    writeSlot layout slot (← Exec.bilinear a.toInt table x.toInt y.toInt)
  | rank1 a sp alpha x y => do
    let table ← given (table? sp)
    Exec.rankOne a.toInt table (← readSlot layout alpha) x.toInt y.toInt
  | project source spSource target spTarget temporary => do
    -- Between equal patterns nothing moves within the columns.
    if spSource.map (·.pattern) = spTarget.map (·.pattern) then
      Exec.copy (fun i => readWork (source.toInt + i))
        (Int64.ofNat (Routine.nonzeros [spSource])).toInt target.toInt
    else
      let tx ← given (table? spSource)
      let ty ← given (table? spTarget)
      Exec.project source.toInt tx target.toInt ty temporary.toInt
  | transpose source spSource target spTarget temporary => do
    let tx ← given (table? spSource)
    let ty ← given (table? spTarget)
    Exec.transpose source.toInt tx target.toInt ty temporary.toInt
  | multiply x spX y spY z spZ temporary transposed => do
    let tx ← given (table? spX)
    let ty ← given (table? spY)
    let tz ← given (table? spZ)
    if transposed then
      Exec.multiplyTransposed x.toInt tx y.toInt ty z.toInt tz temporary.toInt
    else
      Exec.multiply x.toInt tx y.toInt ty z.toInt tz temporary.toInt
  | external slot name args => do
    writeSlot layout slot (call.external name (← args.mapM (readSlot layout)))

end Instr

/-- Run the instructions of a routine, one after the other. -/
def Routine.exec {K : Type} [Scalar K] (f : Routine K) (layout : Layout) (call : Call K) :
    Exec K Unit :=
  f.body.forM (Instr.exec layout call)

/-! ## Scalar instructions -/

section Scalars

open Exec

variable {K : Type} {work : List K} {iwork : List Int}

/-- A memory of slots and results, with work vectors beside it. -/
def Memory.machine (m : Memory K) (work : List K) (iwork : List Int) : Machine K where
  slots := m.slots.toList
  work := work
  iwork := iwork
  results := m.results.map some

theorem elementAt?_of_index? {α : Type} {i : Int64} {n : Nat} (hi : index? i = some n)
    (xs : List α) : elementAt? xs i.toInt = xs[n]? := by
  obtain ⟨h0, rfl⟩ := index?_eq_some hi
  exact if_pos (Int64.le_iff_toInt_le.1 h0)

theorem replaceAt?_of_index? {α : Type} {i : Int64} {n : Nat} (hi : index? i = some n)
    {xs : List α} (hn : n < xs.length) (v : α) :
    replaceAt? xs i.toInt v = some (xs.set n v) := by
  obtain ⟨h0, rfl⟩ := index?_eq_some hi
  have hcast := Int64.toInt_eq_toNatClampNeg h0
  exact if_pos ⟨Int64.le_iff_toInt_le.1 h0, by omega⟩

variable {m m' : Memory K}

theorem readSlot_machine {slot : Int64} {v : K} (h : m.read? slot = some v) :
    readSlot .locals slot (m.machine work iwork) = some (v, m.machine work iwork) := by
  obtain ⟨i, hi, hv⟩ := Option.bind_eq_some_iff.1 h
  simp only [readSlot, Exec.read, elementAt?_of_index? hi]
  rw [Memory.machine, Array.getElem?_toList, hv, Option.map_some]

theorem writeSlot_machine {slot : Int64} {v : K} (h : m.write? slot v = some m') :
    writeSlot .locals slot v (m.machine work iwork) = some ((), m'.machine work iwork) := by
  obtain ⟨i, hi, hlt, rfl⟩ := Memory.write?_eq_some h
  simp only [writeSlot, Exec.write]
  rw [Memory.machine, replaceAt?_of_index? hi (by simpa using hlt)]
  simp [Memory.machine]

variable [Scalar K] {call : Call K} {args : List (List K)}

/-- A scalar instruction that runs on a memory does the same on a machine. -/
theorem Instr.exec_of_run? {instr : Instr K} (hargs : call.args = args.map some)
    (h : run? args m instr = some m') :
    instr.exec .locals call (m.machine work iwork) = some ((), m'.machine work iwork) := by
  cases instr with
  | input slot arg nonzero =>
    obtain ⟨row, hrow, h⟩ := Option.bind_eq_some_iff.1 h
    obtain ⟨v, hv, h⟩ := Option.bind_eq_some_iff.1 h
    obtain ⟨a, ha, hrow⟩ := Option.bind_eq_some_iff.1 hrow
    obtain ⟨k, hk, hv⟩ := Option.bind_eq_some_iff.1 hv
    have hnonzero : call.nonzero? arg nonzero = some v := by
      simp [Call.nonzero?, hargs, elementAt?_of_index? ha, hrow, elementAt?_of_index? hk, hv]
    simp only [exec, given, hnonzero, bind, StateT.bind, Option.map_some, Option.bind_some]
    exact writeSlot_machine h
  | const slot v => exact writeSlot_machine h
  | apply c slot x y =>
    obtain ⟨vx, hx, h⟩ := Option.bind_eq_some_iff.1 h
    obtain ⟨vy, hy, h⟩ := Option.bind_eq_some_iff.1 h
    obtain ⟨v, hv, h⟩ := Option.bind_eq_some_iff.1 h
    unfold Opcode.eval? at hv
    split at hv
    · next hop =>
      obtain rfl := Option.some.inj hv
      simp only [exec, hop, bind, StateT.bind, readSlot_machine hx, Option.bind_some]
      exact writeSlot_machine h
    · next hop =>
      obtain rfl := Option.some.inj hv
      simp only [exec, hop, bind, StateT.bind, readSlot_machine hx, readSlot_machine hy,
        Option.bind_some]
      exact writeSlot_machine h
    · cases hv
  | output res nonzero slot =>
    obtain ⟨v, hv, h⟩ := Option.bind_eq_some_iff.1 h
    obtain ⟨i, k, row, hi, hk, hrow, hlt, rfl⟩ := Memory.store?_eq_some h
    have hread : readResult res.toInt (m.machine work iwork) =
        some (some row, m.machine work iwork) := by
      simp [readResult, Exec.read, Memory.machine, elementAt?_of_index? hi, hrow]
    have hi' : i < (m.results.map some).length := by
      simpa using (List.getElem?_eq_some_iff.1 hrow).1
    simp only [exec, bind, StateT.bind, hread, readSlot_machine hv, given,
      replaceAt?_of_index? hk hlt, Option.map_some, Option.bind_some]
    simp only [writeResult, Exec.write, Memory.machine]
    rw [replaceAt?_of_index? hi hi', Option.map_some, List.map_set]
  | _ => cases h

/-- A scalar routine that runs to its end on a memory does the same on a machine. -/
theorem Routine.exec_of_runAll? {f : Routine K} (hargs : call.args = args.map some)
    (h : Instr.runAll? args f.body m = some m') :
    f.exec .locals call (m.machine work iwork) = some ((), m'.machine work iwork) := by
  rw [Routine.exec]
  generalize f.body = body at h
  induction body generalizing m with
  | nil =>
    obtain rfl := Option.some.inj h
    rfl
  | cons instr body ih =>
    obtain ⟨mid, hmid, h⟩ := Option.bind_eq_some_iff.1 h
    simp only [List.forM, bind, StateT.bind, Instr.exec_of_run? hargs hmid, Option.bind_some]
    exact ih h

end Scalars

end Tangent
