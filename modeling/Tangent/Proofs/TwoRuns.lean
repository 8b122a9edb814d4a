import Mathlib
import Tangent.Proofs.Offsets
import Tangent.Proofs.Tables
import Tangent.Proofs.Validation

/-!
# Two runs of a routine

A routine is run on a memory, and once more on an image of it, where the scalar slots may be laid
out in another way. `Exec.Follows` relates the two runs: whatever the first one does, the second one
does on the image. This needs no more than that the image `Mirrors` the memory.

If the places are known to be `inside`, which is what the checks of the ranges and the tables of the
patterns are for, the second run also stops where the first one does. The first one does not leave
its work vector then, so that it can only stop at something else that is missing. It does not stop
at all if everything is there (`sized`).

Each loop has one lemma, and so has each instruction (`Instr.Sound.follows_exec`). Most loops need
no more than that a place of a range is a place of the vector, and that the rows and the nonzeros of
a pattern are in range. A transposition reads the places that it writes to from the integer work
vector, and needs to know what it has put there: after `k` nonzeros, the next place for the row `r`
is where the row starts, moved by the number of nonzeros of `r` among the first `k` (`NextPlaces`).
-/

namespace Tangent

open Exec
open CodeModule (Layout)

variable {K : Type} {f : Routine K} {layout : Layout} {image : Machine K → Machine K}
  {inside sized : Prop}

/-! ## Memory of the right size -/

theorem toInt_le_toNatClampNeg (n : Int64) : n.toInt ≤ n.toNatClampNeg :=
  Int.self_le_toNat _

/-- A number of things is at least what a machine integer makes of it. -/
theorem toInt_ofNat_le (n : Nat) : (Int64.ofNat n).toInt ≤ n := by
  rw [Int64.toInt_ofNat', Int.bmod_def, Int64.size]
  split_ifs <;> omega

/-- There is a row of nonzeros for each pattern, unless it is missing. -/
structure Shaped (rows : List (Option (List K))) (patterns : List (Option SharedPattern)) :
    Prop where
  length : rows.length = patterns.length
  nonzeros : ∀ (i : Nat) (row : List K), rows[i]? = some (some row) →
    row.length = Routine.nonzeros [(patterns[i]?).join]

/-- The machine has the slots and the work vectors of the routine, and room for its outputs. -/
structure Machine.SizedFor (f : Routine K) (m : Machine K) : Prop where
  slots : m.slots.length = f.scalars.toNatClampNeg
  work : m.work.length = f.work.toNatClampNeg
  iwork : m.iwork.length = f.iwork.toNatClampNeg
  results : Shaped m.results f.outputs

/-- The memory has the slots and the work vector of the routine. The rest may have any size. -/
structure Machine.Parted (f : Routine K) (m : Machine K) : Prop where
  slots : m.slots.length = f.scalars.toNatClampNeg
  work : m.work.length = f.work.toNatClampNeg

/-- The memory has the slots and the work vector of the routine, and the rest if it is `sized`. -/
structure Machine.Fits (sized : Prop) (f : Routine K) (m : Machine K) : Prop where
  parted : m.Parted f
  sizedFor : sized → m.SizedFor f

/-- A range of the work vector of the routine, without a wrap-around. -/
structure Routine.Spans (f : Routine K) (x n : Int) : Prop where
  nonneg : 0 ≤ x
  le : x + n ≤ f.work.toInt

/-- A matrix in the work vector of the routine, with a table for its pattern. -/
structure Routine.HasMatrix (f : Routine K) (x : Int) (table : List Int64) (p : Pattern) :
    Prop where
  wellFormed : p.WellFormed
  presents : p.Presents table
  spans : f.Spans x p.nnz

open Machine (SizedFor Parted Fits)

variable {x y z w n i : Int}

theorem Routine.Spans.place_lt (h : f.Spans x n) (h0 : 0 ≤ i) (hi : i < n) :
    0 ≤ x + i ∧ x + i < f.work.toInt := by
  have hx := h.nonneg
  have hle := h.le
  omega

/-! ## Steps that follow each other -/

namespace Exec

variable {α β γ : Type} {P P' : Machine K → Prop} {Q : α → Machine K → Prop}
  {R : β → Machine K → Prop}

theorem read_eq_some {part : Machine K → List α} {m m' : Machine K} {v : α}
    (h : read part i m = some (v, m')) : elementAt? (part m) i = some v ∧ m' = m := by
  obtain ⟨w, hw, he⟩ := Option.map_eq_some_iff.1 h
  obtain ⟨rfl, rfl⟩ := Prod.mk.inj he
  exact ⟨hw, rfl⟩

theorem write_eq_some {part : Machine K → List α} {put : Machine K → List α → Machine K}
    {m m' : Machine K} {v : α} {u : Unit} (h : write part put i v m = some (u, m')) :
    (0 ≤ i ∧ i < (part m).length) ∧ m' = put m ((part m).set i.toNat v) := by
  obtain ⟨xs, hxs, he⟩ := Option.map_eq_some_iff.1 h
  obtain ⟨-, rfl⟩ := Prod.mk.inj he
  unfold replaceAt? at hxs
  split_ifs at hxs with hi
  exact ⟨hi, by rw [Option.some.inj hxs]⟩

theorem read_ne_none {part : Machine K → List α} {m : Machine K} (h0 : 0 ≤ i)
    (hi : i < (part m).length) : read part i m ≠ none := by
  obtain ⟨v, hv⟩ := exists_elementAt? h0 hi
  rw [read, hv]
  exact Option.some_ne_none _

theorem write_ne_none {part : Machine K → List α} {put : Machine K → List α → Machine K}
    {m : Machine K} {v : α} (h0 : 0 ≤ i) (hi : i < (part m).length) :
    write part put i v m ≠ none := by
  rw [write, replaceAt?_eq h0 hi]
  exact Option.some_ne_none _

/-- From a memory with `P`, `b` does on the image what `a` does on the memory, and `a` leads to `Q`.
If the places of `a` are known to be inside, `b` also stops where `a` does, and neither of them does
if everything is there. -/
structure Follows (image : Machine K → Machine K) (inside sized : Prop) (P : Machine K → Prop)
    (a b : Exec K α) (Q : α → Machine K → Prop) : Prop where
  of_some : ∀ m v m', P m → a m = some (v, m') → b (image m) = some (v, image m') ∧ Q v m'
  of_none : inside → ∀ m, P m → a m = none → ¬sized ∧ b (image m) = none

/-- The steps do the same on a memory and on its image, and keep what fits. -/
abbrev Mirrored (image : Machine K → Machine K) (inside sized : Prop) (f : Routine K)
    (a : Exec K α) : Prop :=
  Follows image inside sized (Fits sized f) a a fun _ => Fits sized f

namespace Follows

theorem pure (v : α) : Follows image inside sized P (pure v) (pure v) fun _ => P where
  of_some m w m' hm h := by
    obtain ⟨rfl, rfl⟩ := Prod.mk.inj (Option.some.inj h)
    exact ⟨rfl, hm⟩
  of_none _ m _ h := nomatch h

theorem bind {a a' : Exec K α} {b b' : α → Exec K β} (ha : Follows image inside sized P a a' Q)
    (hb : ∀ v, Follows image inside sized (Q v) (b v) (b' v) R) :
    Follows image inside sized P (a >>= b) (a' >>= b') R where
  of_some m w m' hm h := by
    obtain ⟨⟨v, m₁⟩, h₁, h₂⟩ := Option.bind_eq_some_iff.1 h
    obtain ⟨h₁', hq⟩ := ha.of_some m v m₁ hm h₁
    obtain ⟨h₂', hr⟩ := (hb v).of_some m₁ w m' hq h₂
    exact ⟨Option.bind_eq_some_iff.2 ⟨_, h₁', h₂'⟩, hr⟩
  of_none hin m hm h := by
    rcases h₁ : a m with _ | ⟨v, m₁⟩
    · obtain ⟨hsized, hnone⟩ := ha.of_none hin m hm h₁
      exact ⟨hsized, Option.bind_eq_none_iff.2 fun r hr => by rw [hnone] at hr; cases hr⟩
    · obtain ⟨h₁', hq⟩ := ha.of_some m v m₁ hm h₁
      obtain ⟨hsized, hnone⟩ :=
        (hb v).of_none hin m₁ hq (Option.bind_eq_none_iff.1 h (v, m₁) h₁)
      refine ⟨hsized, Option.bind_eq_none_iff.2 fun r hr => ?_⟩
      rw [h₁', Option.some.injEq] at hr
      exact hr ▸ hnone

/-- What does not depend on the memory is the same in both runs. -/
theorem given_bind {o : Option α} {b b' : α → Exec K β}
    (ho : inside → sized → ∃ v, o = some v)
    (hb : ∀ v, o = some v → Follows image inside sized P (b v) (b' v) R) :
    Follows image inside sized P (Exec.given o >>= b) (Exec.given o >>= b') R := by
  cases o with
  | none =>
    refine ⟨fun _ _ _ _ h => (nomatch h), fun hin _ _ _ => ⟨fun hsized => ?_, rfl⟩⟩
    obtain ⟨v, hv⟩ := ho hin hsized
    cases hv
  | some v => exact ⟨(hb v rfl).of_some, (hb v rfl).of_none⟩

theorem given {o : Option α} (ho : inside → sized → ∃ v, o = some v) :
    Follows image inside sized P (given o) (given o) fun _ => P := by
  have hbind : Follows image inside sized P (Exec.given o >>= Pure.pure)
      (Exec.given o >>= Pure.pure) fun _ => P := given_bind ho fun v _ => .pure v
  rwa [bind_pure] at hbind

theorem pre {a a' : Exec K α} (h : Follows image inside sized P a a' Q) (hP : ∀ m, P' m → P m) :
    Follows image inside sized P' a a' Q where
  of_some m v m' hm := h.of_some m v m' (hP m hm)
  of_none hin m hm := h.of_none hin m (hP m hm)

theorem imp {a a' : Exec K α} {Q' : α → Machine K → Prop} (h : Follows image inside sized P a a' Q)
    (hQ : ∀ v m, Q v m → Q' v m) : Follows image inside sized P a a' Q' where
  of_some m v m' hm hrun :=
    ⟨(h.of_some m v m' hm hrun).1, hQ v m' (h.of_some m v m' hm hrun).2⟩
  of_none := h.of_none

/-- What the first run leaves beside its memory can be used for the steps that come after. -/
theorem of_fact {a a' : Exec K α} {φ : Prop} (h : φ → Follows image inside sized P a a' Q) :
    Follows image inside sized (fun m => P m ∧ φ) a a' Q where
  of_some m v m' hm := (h hm.2).of_some m v m' hm.1
  of_none hin m hm := (h hm.2).of_none hin m hm.1

theorem foldlM_range {I : Nat → Machine K → Prop} {step step' : β → Nat → Exec K β} {n : Nat}
    (hstep : ∀ b, ∀ i < n,
      Follows image inside sized (I i) (step b i) (step' b i) fun _ => I (i + 1)) (init : β) :
    Follows image inside sized (I 0) ((List.range n).foldlM step init)
      ((List.range n).foldlM step' init) fun _ => I n := by
  induction n with
  | zero => exact .pure init
  | succ n ih =>
    rw [List.range_succ, List.foldlM_append, List.foldlM_append]
    refine (ih fun b i hi => hstep b i (by omega)).bind fun b => ?_
    rw [List.foldlM_cons, List.foldlM_cons]
    exact (hstep b n (Nat.lt_succ_self n)).bind fun b => .pure b

/-- Loops with turns that follow each other. A loop that makes no turn has to keep what is said
about its end. -/
theorem loop {I : Int → Machine K → Prop} {start stop : Int} {init : β}
    {step step' : β → Int → Exec K β}
    (hskip : stop < start → ∀ m, I start m → I stop m)
    (hstep : ∀ b i, start ≤ i → i < stop →
      Follows image inside sized (I i) (step b i) (step' b i) fun _ => I (i + 1)) :
    Follows image inside sized (I start) (loop start stop init step) (loop start stop init step')
      fun _ => I stop := by
  have hrun := foldlM_range (I := fun i => I (start + i)) (n := (stop - start).toNat)
    (fun b i hi => by
      have hturn := hstep b (start + i) (by omega) (by omega)
      rwa [add_assoc, ← Nat.cast_succ] at hturn) init
  rw [Nat.cast_zero, add_zero] at hrun
  refine hrun.imp fun _ m hm => ?_
  rcases lt_or_ge stop start with hlt | hle
  · rw [Int.toNat_of_nonpos (by omega), Nat.cast_zero, add_zero] at hm
    exact hskip hlt m hm
  · rwa [Int.toNat_of_nonneg (by omega), add_sub_cancel] at hm

theorem loop_keep {start stop : Int} {init : β} {step step' : β → Int → Exec K β}
    (hstep : ∀ b i, start ≤ i → i < stop →
      Follows image inside sized P (step b i) (step' b i) fun _ => P) :
    Follows image inside sized P (Exec.loop start stop init step) (Exec.loop start stop init step')
      fun _ => P :=
  loop (I := fun _ => P) (fun _ _ hm => hm) hstep

theorem mapM {g g' : γ → Exec K α} : ∀ {xs : List γ},
    (∀ x ∈ xs, Follows image inside sized P (g x) (g' x) fun _ => P) →
      Follows image inside sized P (xs.mapM g) (xs.mapM g') fun _ => P
  | [], _ => by
    rw [List.mapM_nil, List.mapM_nil]
    exact .pure _
  | x :: xs, h => by
    rw [List.mapM_cons, List.mapM_cons]
    exact (h x List.mem_cons_self).bind fun _ =>
      (mapM fun y hy => h y (List.mem_cons_of_mem x hy)).bind fun _ => .pure _

theorem forM {g g' : γ → Exec K Unit} : ∀ {xs : List γ},
    (∀ x ∈ xs, Follows image inside sized P (g x) (g' x) fun _ => P) →
      Follows image inside sized P (xs.forM g) (xs.forM g') fun _ => P
  | [], _ => .pure _
  | x :: _, h => (h x List.mem_cons_self).bind fun _ =>
    forM fun y hy => h y (List.mem_cons_of_mem x hy)

/-- A part of the memory that is the same in the image is read. -/
theorem read {part : Machine K → List α} (hpart : ∀ m, part (image m) = part m)
    (hplace : inside → sized → ∀ m, P m → 0 ≤ i ∧ i < (part m).length) :
    Follows image inside sized P (read part i) (read part i) fun v m =>
      P m ∧ elementAt? (part m) i = some v where
  of_some m v m' hm h := by
    obtain ⟨hv, rfl⟩ := read_eq_some h
    exact ⟨by rw [Exec.read, hpart, hv, Option.map_some], hm, hv⟩
  of_none hin m hm h := by
    refine ⟨fun hsized => ?_, ?_⟩
    · obtain ⟨h0, hi⟩ := hplace hin hsized m hm
      exact read_ne_none h0 hi h
    · rw [Exec.read, hpart, Option.map_eq_none_iff]
      exact Option.map_eq_none_iff.1 h

/-- A part of the memory that is the same in the image is written. -/
theorem write {part : Machine K → List α} {put : Machine K → List α → Machine K} {v : α}
    (hpart : ∀ m, part (image m) = part m) (hput : ∀ m xs, put (image m) xs = image (put m xs))
    (hplace : inside → sized → ∀ m, P m → 0 ≤ i ∧ i < (part m).length)
    (hP : ∀ m, P m → 0 ≤ i → i < (part m).length → P' (put m ((part m).set i.toNat v))) :
    Follows image inside sized P (write part put i v) (write part put i v) fun _ => P' where
  of_some m w m' hm h := by
    obtain ⟨hi, rfl⟩ := write_eq_some h
    refine ⟨?_, hP m hm hi.1 hi.2⟩
    rw [Exec.write, hpart, replaceAt?_eq hi.1 hi.2, Option.map_some, hput]
  of_none hin m hm h := by
    refine ⟨fun hsized => ?_, ?_⟩
    · obtain ⟨h0, hi⟩ := hplace hin hsized m hm
      exact write_ne_none h0 hi h
    · rw [Exec.write, hpart, Option.map_eq_none_iff]
      exact Option.map_eq_none_iff.1 h

end Follows

/-- Nothing stops if everything is there. -/
theorem Follows.exists_run {a b : Exec K α} (h : Follows image True True P a b Q) {m : Machine K}
    (hm : P m) : ∃ v m', a m = some (v, m') ∧ Q v m' := by
  rcases hrun : a m with _ | ⟨v, m'⟩
  · exact ((h.of_none trivial m hm hrun).1 trivial).elim
  · exact ⟨v, m', rfl, (h.of_some m v m' hm hrun).2⟩

end Exec

/-! ## The image of a memory -/

/-- What is read from a memory can be read from its image, and the image of what is written is what
is written to the image. The slots of the image are laid out in the given way. -/
structure Mirrors (f : Routine K) (layout : Layout) (image : Machine K → Machine K) : Prop where
  readSlot : ∀ {m m' : Machine K} {i : Int64} {v : K}, Parted f m → 0 ≤ i ∧ i < f.scalars →
    readSlot .locals i m = some (v, m') → readSlot layout i (image m) = some (v, image m')
  writeSlot : ∀ {m m' : Machine K} {i : Int64} {v : K}, Parted f m → 0 ≤ i ∧ i < f.scalars →
    writeSlot .locals i v m = some ((), m') → writeSlot layout i v (image m) = some ((), image m')
  readWork : ∀ {m m' : Machine K} {i : Int} {v : K},
    readWork i m = some (v, m') → readWork i (image m) = some (v, image m')
  writeWork : ∀ {m m' : Machine K} {i : Int} {v : K},
    writeWork i v m = some ((), m') → writeWork i v (image m) = some ((), image m')
  iwork : ∀ m, (image m).iwork = m.iwork
  setIWork : ∀ m iwork, { image m with iwork } = image { m with iwork }
  results : ∀ m, (image m).results = m.results
  setResults : ∀ m results, { image m with results } = image { m with results }

/-- `P` says that the slots and the work vector are there, and nothing about the values in the work
vector. -/
structure Steady (f : Routine K) (P : Machine K → Prop) : Prop where
  parted : ∀ m, P m → Parted f m
  setWork : ∀ m i v, P m → P { m with work := m.work.set i v }

theorem steady_fits : Steady f (Fits sized f) where
  parted _ hm := hm.parted
  setWork m i v hm :=
    ⟨⟨hm.parted.slots, by rw [List.length_set, hm.parted.work]⟩, fun hsized =>
      ⟨hm.parted.slots, by rw [List.length_set, hm.parted.work], (hm.sizedFor hsized).iwork,
        (hm.sizedFor hsized).results⟩⟩

namespace Mirrors

variable {P : Machine K → Prop}

/-- A place of the work vector is read. -/
theorem follows_readWork (h : Mirrors f layout image) (hP : Steady f P)
    (hi : inside → 0 ≤ i ∧ i < f.work.toInt) :
    Follows image inside sized P (Exec.readWork i) (Exec.readWork i) fun _ => P where
  of_some m v m' hm hrun := ⟨h.readWork hrun, (read_eq_some hrun).2 ▸ hm⟩
  of_none hin m hm hrun := by
    have hwork := (hP.parted m hm).work
    have hle := toInt_le_toNatClampNeg f.work
    exact absurd hrun (read_ne_none (hi hin).1 (by have := (hi hin).2; omega))

/-- A place of the work vector is written. -/
theorem follows_writeWork (h : Mirrors f layout image) (hP : Steady f P)
    (hi : inside → 0 ≤ i ∧ i < f.work.toInt) (v : K) :
    Follows image inside sized P (Exec.writeWork i v) (Exec.writeWork i v) fun _ => P where
  of_some m u m' hm hrun := ⟨h.writeWork hrun, (write_eq_some hrun).2 ▸ hP.setWork m _ v hm⟩
  of_none hin m hm hrun := by
    have hwork := (hP.parted m hm).work
    have hle := toInt_le_toNatClampNeg f.work
    exact absurd hrun (write_ne_none (hi hin).1 (by have := (hi hin).2; omega))

theorem follows_readSlot (h : Mirrors f layout image) {i : Int64} (hi : 0 ≤ i ∧ i < f.scalars) :
    Follows image inside sized (Fits sized f) (Exec.readSlot .locals i) (Exec.readSlot layout i)
      fun _ => Fits sized f where
  of_some m v m' hm hrun := ⟨h.readSlot hm.parted hi hrun, (read_eq_some hrun).2 ▸ hm⟩
  of_none _ m hm hrun := by
    have hslots := hm.parted.slots
    have hlt := Int64.lt_iff_toInt_lt.1 hi.2
    have hle := toInt_le_toNatClampNeg f.scalars
    exact absurd hrun (read_ne_none (Int64.le_iff_toInt_le.1 hi.1) (by omega))

theorem follows_writeSlot (h : Mirrors f layout image) {i : Int64} (hi : 0 ≤ i ∧ i < f.scalars)
    (v : K) : Follows image inside sized (Fits sized f) (Exec.writeSlot .locals i v)
      (Exec.writeSlot layout i v) fun _ => Fits sized f where
  of_some m u m' hm hrun := by
    refine ⟨h.writeSlot hm.parted hi hrun, ?_⟩
    rw [Exec.writeSlot] at hrun
    rw [(write_eq_some hrun).2]
    exact ⟨⟨by rw [List.length_set, hm.parted.slots], hm.parted.work⟩, fun hsized =>
      ⟨by rw [List.length_set, hm.parted.slots], hm.parted.work, (hm.sizedFor hsized).iwork,
        (hm.sizedFor hsized).results⟩⟩
  of_none _ m hm hrun := by
    have hslots := hm.parted.slots
    have hlt := Int64.lt_iff_toInt_lt.1 hi.2
    have hle := toInt_le_toNatClampNeg f.scalars
    rw [Exec.writeSlot] at hrun
    exact absurd hrun (write_ne_none (Int64.le_iff_toInt_le.1 hi.1) (by omega))

/-! ## Vectors -/

theorem read (h : Mirrors f layout image) (hx : inside → f.Spans x n) (h0 : 0 ≤ i) (hi : i < n) :
    Mirrored image inside sized f (Exec.readWork (x + i)) :=
  h.follows_readWork steady_fits fun hin => (hx hin).place_lt h0 hi

theorem write (h : Mirrors f layout image) (hx : inside → f.Spans x n) (h0 : 0 ≤ i) (hi : i < n)
    (v : K) : Mirrored image inside sized f (Exec.writeWork (x + i) v) :=
  h.follows_writeWork steady_fits (fun hin => (hx hin).place_lt h0 hi) v

theorem copy (h : Mirrors f layout image) {source : Int → Exec K K}
    (hsource : ∀ i, 0 ≤ i → i < n → Mirrored image inside sized f (source i))
    (hy : inside → f.Spans y n) : Mirrored image inside sized f (Exec.copy source n y) :=
  .loop_keep fun _ i h0 hi => (hsource i h0 hi).bind fun v => h.write hy h0 hi v

theorem swap (h : Mirrors f layout image) (hx : inside → f.Spans x n) (hy : inside → f.Spans y n) :
    Mirrored image inside sized f (Exec.swap n x y) :=
  .loop_keep fun _ _ h0 hi => (h.read hx h0 hi).bind fun t => (h.read hy h0 hi).bind fun v =>
    (h.write hx h0 hi v).bind fun _ => h.write hy h0 hi t

variable [Scalar K]

theorem scale (h : Mirrors f layout image) (alpha : K) (hx : inside → f.Spans x n) :
    Mirrored image inside sized f (Exec.scale n alpha x) :=
  .loop_keep fun _ _ h0 hi => (h.read hx h0 hi).bind fun _ => h.write hx h0 hi _

theorem axpy (h : Mirrors f layout image) (alpha : K) (hx : inside → f.Spans x n)
    (hy : inside → f.Spans y n) : Mirrored image inside sized f (Exec.axpy n alpha x y) :=
  .loop_keep fun _ _ h0 hi => (h.read hy h0 hi).bind fun _ => (h.read hx h0 hi).bind fun _ =>
    h.write hy h0 hi _

theorem dot (h : Mirrors f layout image) (hx : inside → f.Spans x n) (hy : inside → f.Spans y n) :
    Mirrored image inside sized f (Exec.dot n x y) :=
  .loop_keep fun _ _ h0 hi => (h.read hx h0 hi).bind fun _ => (h.read hy h0 hi).bind fun _ =>
    .pure _

theorem reduce (h : Mirrors f layout image) (ofPlace : Int → K) (kind : Reduction)
    (hx : inside → f.Spans x n) : Mirrored image inside sized f (Exec.reduce ofPlace kind n x) := by
  cases kind with
  | asum =>
    rw [Exec.reduce, sumOfAbs]
    exact .loop_keep fun _ _ h0 hi => (h.read hx h0 hi).bind fun _ => .pure _
  | iamax =>
    rw [Exec.reduce, placeOfMax, map_eq_pure_bind]
    refine Follows.bind (Follows.bind (.loop_keep fun _ _ h0 hi => ?_) fun _ => .pure _)
      fun _ => .pure _
    exact (h.read hx h0 hi).bind fun _ => .pure _
  | nrm2 =>
    rw [Exec.reduce, Exec.norm]
    refine Follows.bind (.loop_keep fun _ _ h0 hi => ?_) fun _ => .pure _
    exact (h.read hx h0 hi).bind fun _ => .pure _

end Mirrors

/-! ## Matrices -/

/-- Nonzero `k` of the pattern is in column `c` and row `r`, and the table says so. -/
structure IsNonzero (table : List Int64) (p : Pattern) (c k r : Int) : Prop where
  row? : row? table c k = some r
  nonneg : 0 ≤ k
  lt : k < p.nnz
  row_nonneg : 0 ≤ r
  row_lt : r < p.nrow.toInt

/-- Every number between the offsets of a column is that of a nonzero. -/
theorem Pattern.WellFormed.exists_nonzero {p : Pattern} {table : List Int64} (hp : p.WellFormed)
    (ht : p.Presents table) {c k : Nat} (hc : c < p.columns) (hk : p.offset c ≤ k)
    (hlt : k < p.offset (c + 1)) :
    ∃ r : Int64, p.rows[k]? = some r ∧ IsNonzero table p c k r.toInt := by
  have hnnz := hlt.trans_le (hp.offset_le_nnz (c := c + 1) hc)
  have hr : p.rows[k]? = some p.rows[k] := List.getElem?_eq_getElem hnnz
  obtain ⟨h0, hrow⟩ := hp.inRange (List.getElem_mem hnnz)
  exact ⟨p.rows[k], hr, ht.row? c hc k hk hlt _ hr, by omega, by exact_mod_cast hnnz,
    Int64.le_iff_toInt_le.1 h0, Int64.lt_iff_toInt_lt.1 hrow⟩

variable {p q r : Pattern} {tp tq tr : List Int64} {c k : Int}

namespace Exec.Follows

variable {β : Type} {P : Machine K → Prop} {R : β → Machine K → Prop}

/-- The number of columns is read from a table. -/
theorem ncol_bind {b b' : Int → Exec K β} (hp : inside → p.Presents tp)
    (hb : ∀ n, (inside → n = p.ncol.toInt) → Follows image inside sized P (b n) (b' n) R) :
    Follows image inside sized P (Exec.given (ncol? tp) >>= b) (Exec.given (ncol? tp) >>= b') R :=
  .given_bind (fun hin _ => ⟨_, (hp hin).ncol?⟩) fun n hn => hb n fun hin => by
    rw [(hp hin).ncol?, Option.some.injEq] at hn
    exact hn.symm

/-- The row of a nonzero is read from a table. -/
theorem row_bind {b b' : Int → Exec K β} (hk : inside → ∃ i, IsNonzero tp p c k i)
    (hb : ∀ i, (inside → IsNonzero tp p c k i) → Follows image inside sized P (b i) (b' i) R) :
    Follows image inside sized P (Exec.given (row? tp c k) >>= b)
      (Exec.given (row? tp c k) >>= b') R := by
  refine .given_bind (fun hin _ => ?_) fun i hi => hb i fun hin => ?_
  · obtain ⟨i, hi⟩ := hk hin
    exact ⟨i, hi.row?⟩
  · obtain ⟨j, hj⟩ := hk hin
    rw [hj.row?, Option.some.injEq] at hi
    exact hi ▸ hj

/-- Loops over a column, where the numbers are those of nonzeros. -/
theorem overColumn {init : β} {step step' : β → Int → Exec K β}
    (hp : inside → f.HasMatrix x tp p) (hc : inside → 0 ≤ c ∧ c < p.ncol.toInt)
    (hstep : ∀ b k, (inside → ∃ i, IsNonzero tp p c k i) →
      Follows image inside sized P (step b k) (step' b k) fun _ => P) :
    Follows image inside sized P (overColumn tp c init step) (overColumn tp c init step')
      fun _ => P := by
  have hcol : inside → ∃ j : Nat, c = j ∧ j < p.columns := by
    intro hin
    have hncol := Int64.toInt_eq_toNatClampNeg (hp hin).wellFormed.ncol_nonneg
    obtain ⟨h0, hlt⟩ := hc hin
    exact ⟨c.toNat, by omega, by rw [Pattern.columns]; omega⟩
  refine .given_bind (fun hin _ => ?_) fun start hstart => .given_bind (fun hin _ => ?_)
    fun stop hstop => .loop_keep fun b k hk hlt => hstep b k fun hin => ?_
  · obtain ⟨j, rfl, hj⟩ := hcol hin
    exact ⟨_, (hp hin).presents.columnStart? j hj⟩
  · obtain ⟨j, rfl, hj⟩ := hcol hin
    exact ⟨_, (hp hin).presents.columnStop? j hj⟩
  · obtain ⟨j, rfl, hj⟩ := hcol hin
    rw [(hp hin).presents.columnStart? j hj, Option.some.injEq] at hstart
    rw [(hp hin).presents.columnStop? j hj, Option.some.injEq] at hstop
    obtain ⟨k, rfl⟩ := Int.eq_ofNat_of_zero_le (a := k) (by omega)
    obtain ⟨i, -, hi⟩ := (hp hin).wellFormed.exists_nonzero (k := k) (hp hin).presents hj
      (by omega) (by omega)
    exact ⟨_, hi⟩

end Exec.Follows

namespace Mirrors

/-- A nonzero of a matrix is read. -/
theorem readNonzero (h : Mirrors f layout image) (hx : inside → f.HasMatrix x tp p)
    (hk : inside → ∃ i, IsNonzero tp p c k i) :
    Mirrored image inside sized f (Exec.readWork (x + k)) :=
  h.follows_readWork steady_fits fun hin => by
    obtain ⟨i, hi⟩ := hk hin
    exact (hx hin).spans.place_lt hi.nonneg hi.lt

/-- A nonzero of a matrix is written. -/
theorem writeNonzero (h : Mirrors f layout image) (hx : inside → f.HasMatrix x tp p)
    (hk : inside → ∃ i, IsNonzero tp p c k i) (v : K) :
    Mirrored image inside sized f (Exec.writeWork (x + k) v) :=
  h.follows_writeWork steady_fits (fun hin => by
    obtain ⟨i, hi⟩ := hk hin
    exact (hx hin).spans.place_lt hi.nonneg hi.lt) v

/-- The row of a nonzero is one of a column at `w`. -/
theorem readRow (h : Mirrors f layout image) (hw : inside → f.Spans w n) (hn : p.nrow.toInt = n)
    (hi : inside → IsNonzero tp p c k i) : Mirrored image inside sized f (Exec.readWork (w + i)) :=
  h.follows_readWork steady_fits fun hin =>
    (hw hin).place_lt (hi hin).row_nonneg (hn ▸ (hi hin).row_lt)

theorem writeRow (h : Mirrors f layout image) (hw : inside → f.Spans w n) (hn : p.nrow.toInt = n)
    (hi : inside → IsNonzero tp p c k i) (v : K) :
    Mirrored image inside sized f (Exec.writeWork (w + i) v) :=
  h.follows_writeWork steady_fits (fun hin =>
    (hw hin).place_lt (hi hin).row_nonneg (hn ▸ (hi hin).row_lt)) v

variable [Scalar K]

theorem project (h : Mirrors f layout image) (hx : inside → f.HasMatrix x tp p)
    (hy : inside → f.HasMatrix y tq q) (hw : inside → f.Spans w p.nrow.toInt)
    (hrow : q.nrow = p.nrow) (hcol : q.ncol = p.ncol) :
    Mirrored image inside sized f (Exec.project x tp y tq w) := by
  refine .ncol_bind (fun hin => (hx hin).presents) fun n hn => .loop_keep fun _ c h0 hc => ?_
  have hcp : inside → 0 ≤ c ∧ c < p.ncol.toInt := fun hin => ⟨h0, hn hin ▸ hc⟩
  have hcq : inside → 0 ≤ c ∧ c < q.ncol.toInt := hcol ▸ hcp
  refine (Follows.overColumn hy hcq fun _ k hk => ?_).bind fun _ =>
    (Follows.overColumn hx hcp fun _ k hk => ?_).bind fun _ =>
    Follows.overColumn hy hcq fun _ k hk => ?_
  · exact .row_bind hk fun i hi => h.writeRow hw (by rw [hrow]) hi _
  · exact .row_bind hk fun i hi => (h.readNonzero hx hk).bind fun v => h.writeRow hw rfl hi v
  · exact .row_bind hk fun i hi => (h.readRow hw (by rw [hrow]) hi).bind fun v =>
      h.writeNonzero hy hk v

theorem bilinear (h : Mirrors f layout image) (ha : inside → f.HasMatrix z tp p)
    (hx : inside → f.Spans x p.nrow.toInt) (hy : inside → f.Spans y p.ncol.toInt) :
    Mirrored image inside sized f (Exec.bilinear z tp x y) := by
  refine .ncol_bind (fun hin => (ha hin).presents) fun n hn => .loop_keep fun _ c h0 hc => ?_
  have hcp : inside → 0 ≤ c ∧ c < p.ncol.toInt := fun hin => ⟨h0, hn hin ▸ hc⟩
  refine Follows.overColumn ha hcp fun _ k hk => .row_bind hk fun i hi => ?_
  exact (h.readRow hx rfl hi).bind fun _ => (h.readNonzero ha hk).bind fun _ =>
    (h.read (n := n) (fun hin => hn hin ▸ hy hin) h0 hc).bind fun _ => .pure _

theorem rankOne (h : Mirrors f layout image) (alpha : K) (ha : inside → f.HasMatrix z tp p)
    (hx : inside → f.Spans x p.nrow.toInt) (hy : inside → f.Spans y p.ncol.toInt) :
    Mirrored image inside sized f (Exec.rankOne z tp alpha x y) := by
  refine .ncol_bind (fun hin => (ha hin).presents) fun n hn => .loop_keep fun _ c h0 hc => ?_
  have hcp : inside → 0 ≤ c ∧ c < p.ncol.toInt := fun hin => ⟨h0, hn hin ▸ hc⟩
  refine Follows.overColumn ha hcp fun _ k hk => .row_bind hk fun i hi => ?_
  exact (h.readRow hx rfl hi).bind fun _ => (h.readNonzero ha hk).bind fun _ =>
    (h.read (n := n) (fun hin => hn hin ▸ hy hin) h0 hc).bind fun _ => h.writeNonzero ha hk _

theorem multiply (h : Mirrors f layout image) (hx : inside → f.HasMatrix x tp p)
    (hy : inside → f.HasMatrix y tq q) (hz : inside → f.HasMatrix z tr r)
    (hw : inside → f.Spans w r.nrow.toInt) (hinner : p.ncol = q.nrow) (hrow : p.nrow = r.nrow)
    (hcol : q.ncol = r.ncol) : Mirrored image inside sized f (Exec.multiply x tp y tq z tr w) := by
  refine .ncol_bind (fun hin => (hy hin).presents) fun n hn => .loop_keep fun _ c h0 hc => ?_
  have hcq : inside → 0 ≤ c ∧ c < q.ncol.toInt := fun hin => ⟨h0, hn hin ▸ hc⟩
  have hcr : inside → 0 ≤ c ∧ c < r.ncol.toInt := hcol ▸ hcq
  refine (Follows.overColumn hz hcr fun _ k hk => ?_).bind fun _ =>
    (Follows.overColumn hy hcq fun _ k hk => ?_).bind fun _ =>
    Follows.overColumn hz hcr fun _ k hk => ?_
  · exact .row_bind hk fun i hi => (h.readNonzero hz hk).bind fun v => h.writeRow hw rfl hi v
  · -- A row of the second factor is a column of the first.
    refine .row_bind hk fun i hi => Follows.overColumn hx
      (fun hin => ⟨(hi hin).row_nonneg, hinner ▸ (hi hin).row_lt⟩) fun _ k₁ hk₁ =>
        .row_bind hk₁ fun j hj => ?_
    exact (h.readRow hw (by rw [hrow]) hj).bind fun _ => (h.readNonzero hx hk₁).bind fun _ =>
      (h.readNonzero hy hk).bind fun _ => h.writeRow hw (by rw [hrow]) hj _
  · exact .row_bind hk fun i hi => (h.readRow hw rfl hi).bind fun v => h.writeNonzero hz hk v

theorem multiplyTransposed (h : Mirrors f layout image) (hx : inside → f.HasMatrix x tp p)
    (hy : inside → f.HasMatrix y tq q) (hz : inside → f.HasMatrix z tr r)
    (hw : inside → f.Spans w q.nrow.toInt) (hinner : p.nrow = q.nrow) (hrow : p.ncol = r.nrow)
    (hcol : q.ncol = r.ncol) :
    Mirrored image inside sized f (Exec.multiplyTransposed x tp y tq z tr w) := by
  refine .given_bind (fun hin _ => ⟨_, (hy hin).presents.nrow?⟩) fun nrow hnrow =>
    .ncol_bind (fun hin => (hz hin).presents) fun n hn => .loop_keep fun _ c h0 hc => ?_
  have hcr : inside → 0 ≤ c ∧ c < r.ncol.toInt := fun hin => ⟨h0, hn hin ▸ hc⟩
  have hcq : inside → 0 ≤ c ∧ c < q.ncol.toInt := hcol ▸ hcr
  have hcolumn : inside → f.Spans w nrow := fun hin => by
    rw [(hy hin).presents.nrow?, Option.some.injEq] at hnrow
    exact hnrow ▸ hw hin
  refine Follows.bind (.loop_keep fun _ i hi hlt => h.write hcolumn hi hlt _) fun _ =>
    (Follows.overColumn hy hcq fun _ k hk => ?_).bind fun _ =>
    Follows.overColumn hz hcr fun _ k hk => ?_
  · exact .row_bind hk fun i hi => (h.readNonzero hy hk).bind fun v => h.writeRow hw rfl hi v
  · -- A row of the result is a column of the first factor.
    refine .row_bind hk fun i hi => Follows.overColumn hx
      (fun hin => ⟨(hi hin).row_nonneg, hrow ▸ (hi hin).row_lt⟩) fun _ k₁ hk₁ =>
        .row_bind hk₁ fun j hj => ?_
    exact (h.readRow hw (by rw [hinner]) hj).bind fun _ => (h.readNonzero hz hk).bind fun _ =>
      (h.readNonzero hx hk₁).bind fun _ => h.writeNonzero hz hk _

end Mirrors

/-! ## Transposition -/

/-- With the nonzeros of smaller rows and the earlier ones of its own row before it, a nonzero has a
place among all of them. -/
theorem countP_add_count_take_lt {rows : List Int64} {k : Nat} {r : Int64}
    (hr : rows[k]? = some r) :
    rows.countP (· < r) + (rows.take k).count r < rows.length := by
  have hsplit : rows.length = rows.countP (· < r) + rows.countP fun s => ¬(s < r) := by
    simpa using rows.length_eq_countP_add_countP (fun s => decide (s < r))
  have hrest : rows.count r ≤ rows.countP fun s => ¬(s < r) :=
    List.countP_mono_left fun s _ hs => by simp [beq_iff_eq.1 hs]
  have hnext : (rows.take (k + 1)).count r = (rows.take k).count r + 1 := by
    simp [List.take_add_one, hr]
  have hle := (List.take_sublist (k + 1) rows).count_le r
  omega

/-- Where the next nonzero of the row `r` goes after the first `k` nonzeros of `p`. -/
def nextPlace (p q : Pattern) (k r : Nat) : Nat :=
  q.offset r + (p.rows.take k).count (Int64.ofNat r)

section NextPlace

variable {numbers : List Nat}

theorem offset_of_transpose (hp : p.WellFormed) (ht : p.transpose = .ok (q, numbers)) {c : Nat}
    (hc : c ≤ q.columns) : q.offset c = p.rows.countP (· < Int64.ofNat c) := by
  obtain ⟨hrow, hncol, hfits, hoffsets⟩ := Pattern.of_transpose ht
  rw [Pattern.offsetsOf_eq hrow hfits fun r hr => hp.inRange hr] at hoffsets
  rw [Pattern.columns, hncol] at hc
  have hcount : p.rows.countP (· < Int64.ofNat c) ≤ p.nnz := List.countP_le_length
  have hnnz := hp.nnz_lt
  rw [Pattern.offset_of_getElem? (Except.ok.inj hoffsets ▸ Pattern.getElem?_startsOf hc p.rows),
    Int64.toNatClampNeg_ofNat_of_lt (by omega)]

/-- All rows are below their number, so the last offset is the number of nonzeros. -/
theorem nnz_of_transpose (hp : p.WellFormed) (hq : q.WellFormed)
    (ht : p.transpose = .ok (q, numbers)) : q.nnz = p.nnz := by
  obtain ⟨hrow, hncol, -⟩ := Pattern.of_transpose ht
  rw [← hq.offset_columns, offset_of_transpose hp ht le_rfl, Pattern.columns, hncol,
    Int64.ofNat_toNatClampNeg _ hrow]
  exact List.countP_eq_length.2 fun r hr => decide_eq_true (hp.inRange hr).2

/-- The place that the next nonzero goes to is one of the result. -/
theorem nextPlace_lt (hp : p.WellFormed) (hq : q.WellFormed) (ht : p.transpose = .ok (q, numbers))
    {k : Nat} {r : Int64} (hr : p.rows[k]? = some r) :
    nextPlace p q k r.toNatClampNeg < q.nnz := by
  obtain ⟨hrow, hlt⟩ := hp.inRange (List.mem_of_getElem? hr)
  have hcolumn : r.toNatClampNeg ≤ q.columns := by
    rw [Pattern.columns, (Pattern.of_transpose ht).2.1]
    exact toNatClampNeg_mono (Int64.le_of_lt hlt)
  rw [nextPlace, offset_of_transpose hp ht hcolumn, Int64.ofNat_toNatClampNeg _ hrow,
    nnz_of_transpose hp hq ht]
  exact countP_add_count_take_lt hr

/-- Only the row of a nonzero has its next place moved. -/
theorem nextPlace_succ {k : Nat} {r : Int64} (hr : p.rows[k]? = some r) (hrow : 0 ≤ r) {s : Nat}
    (hs : s < 2 ^ 63) : nextPlace p q (k + 1) s =
      if s = r.toNatClampNeg then nextPlace p q k s + 1 else nextPlace p q k s := by
  have heq : r = Int64.ofNat s ↔ s = r.toNatClampNeg := by
    constructor
    · rintro rfl
      rw [Int64.toNatClampNeg_ofNat_of_lt hs]
    · rintro rfl
      rw [Int64.ofNat_toNatClampNeg _ hrow]
  rw [nextPlace, nextPlace, List.take_add_one, hr, Option.toList_some, List.count_append,
    List.count_singleton, ← Nat.add_assoc]
  simp only [beq_iff_eq, heq]
  split_ifs <;> rfl

end NextPlace

/-- If the places are known to be inside, the integer work vector has the next place for each of the
first `n` rows. -/
structure NextPlaces (inside sized : Prop) (f : Routine K) (w n : Int) (next : Nat → Nat)
    (m : Machine K) : Prop where
  fits : Fits sized f m
  next : inside → ∀ r : Nat, (r : Int) < n → elementAt? m.iwork (w + r) = some (next r : Int)

namespace NextPlaces

variable {n' : Int} {next next' : Nat → Nat}

theorem steady : Steady f (NextPlaces inside sized f w n next) :=
  ⟨fun _ hm => hm.fits.parted, fun m i v hm => ⟨steady_fits.setWork m i v hm.fits, hm.next⟩⟩

theorem cast {m : Machine K} (hm : NextPlaces inside sized f w n next m)
    (h : inside → n = n' ∧ next = next') : NextPlaces inside sized f w n' next' m :=
  ⟨hm.fits, fun hin => by
    obtain ⟨rfl, rfl⟩ := h hin
    exact hm.next hin⟩

/-- The next places are in the integer work vector, if that is there. -/
theorem place_lt {m : Machine K} (hm : NextPlaces inside sized f w n next m) (hsized : sized)
    (hw : 0 ≤ w) (h0 : 0 ≤ i) (hi : w + i < f.iwork.toInt) :
    0 ≤ w + i ∧ w + i < m.iwork.length := by
  rw [(hm.fits.sizedFor hsized).iwork]
  exact ⟨by omega, hi.trans_le (toInt_le_toNatClampNeg _)⟩

/-- Writing a next place moves that of one row, and may add a row. -/
theorem writeIWork (h : Mirrors f layout image) (hw : 0 ≤ w) {v : Int}
    (hi : inside → ∃ r : Nat, i = r ∧ w + i < f.iwork.toInt ∧ v = next' r ∧
      ∀ s : Nat, (s : Int) < n' → s ≠ r → (s : Int) < n ∧ next' s = next s) :
    Follows image inside sized (NextPlaces inside sized f w n next) (Exec.writeIWork (w + i) v)
      (Exec.writeIWork (w + i) v) fun _ => NextPlaces inside sized f w n' next' := by
  refine .write h.iwork h.setIWork (fun hin hsized m hm => ?_) fun m hm hplace hlt =>
    ⟨⟨⟨hm.fits.parted.slots, hm.fits.parted.work⟩, fun hsized => ?_⟩, fun hin s hs => ?_⟩
  · obtain ⟨r, rfl, hplace, -⟩ := hi hin
    exact hm.place_lt hsized hw (by omega) hplace
  · have hsizes := hm.fits.sizedFor hsized
    exact ⟨hsizes.slots, hsizes.work, by rw [List.length_set, hsizes.iwork], hsizes.results⟩
  · obtain ⟨r, rfl, -, rfl, hrest⟩ := hi hin
    rw [elementAt?_set hplace hlt]
    split_ifs with he
    · obtain rfl : r = s := by omega
      rfl
    · obtain ⟨hsn, hnext⟩ := hrest s hs (by omega)
      rw [hnext, hm.next hin s hsn]

theorem readIWork (h : Mirrors f layout image) (hw : 0 ≤ w)
    (hi : inside → ∃ r : Nat, i = r ∧ w + i < f.iwork.toInt ∧ (r : Int) < n) :
    Follows image inside sized (NextPlaces inside sized f w n next) (Exec.readIWork (w + i))
      (Exec.readIWork (w + i)) fun v m =>
        NextPlaces inside sized f w n next m ∧ (inside → v = next i.toNat) := by
  refine (Follows.read h.iwork fun hin hsized m hm => ?_).imp fun v m hm => ⟨hm.1, fun hin => ?_⟩
  · obtain ⟨r, rfl, hplace, -⟩ := hi hin
    exact hm.place_lt hsized hw (by omega) hplace
  · obtain ⟨r, rfl, -, hr⟩ := hi hin
    exact Option.some.inj (hm.2.symm.trans (hm.1.next hin r hr))

end NextPlaces

namespace Mirrors

variable {numbers : List Nat}

/-- At first, the next place for a row is where it starts. -/
theorem follows_starts (h : Mirrors f layout image) (hy : inside → f.HasMatrix y tq q)
    (hw : 0 ≤ w) (hstop : w + q.ncol.toInt ≤ f.iwork.toInt) (hn : inside → n = q.ncol.toInt) :
    Follows image inside sized (Fits sized f)
      (loop 0 n () fun _ c => do writeIWork (w + c) (← given (columnStart? tq c)))
      (loop 0 n () fun _ c => do writeIWork (w + c) (← given (columnStart? tq c)))
      fun _ => NextPlaces inside sized f w q.ncol.toInt q.offset := by
  refine ((Follows.loop (I := fun c => NextPlaces inside sized f w c q.offset)
    (fun hlt m hm => ⟨hm.fits, fun _ r hr => by omega⟩) fun _ c hc hlt => ?_).pre
    fun m hm => ⟨hm, fun _ r hr => by omega⟩).imp fun _ m hm => hm.cast fun hin => ⟨hn hin, rfl⟩
  obtain ⟨c, rfl⟩ := Int.eq_ofNat_of_zero_le hc
  have hcol : inside → c < q.columns := fun hin => by
    have hncol := Int64.toInt_eq_toNatClampNeg (hy hin).wellFormed.ncol_nonneg
    have := hn hin
    rw [Pattern.columns]
    omega
  refine .given_bind (fun hin _ => ⟨_, (hy hin).presents.columnStart? c (hcol hin)⟩) fun v hv =>
    NextPlaces.writeIWork h hw fun hin => ?_
  rw [(hy hin).presents.columnStart? c (hcol hin), Option.some.injEq] at hv
  have := hn hin
  exact ⟨c, rfl, by omega, hv.symm, fun s hs hne => ⟨by omega, rfl⟩⟩

/-- One nonzero goes to the next place of its row, and moves that. -/
theorem follows_place (h : Mirrors f layout image) (hx : inside → f.HasMatrix x tp p)
    (hy : inside → f.HasMatrix y tq q) (hw : 0 ≤ w) (hstop : w + q.ncol.toInt ≤ f.iwork.toInt)
    (ht : p.transpose = .ok (q, numbers)) (hk : inside → ∃ r : Int64,
      p.rows[k.toNat]? = some r ∧ IsNonzero tp p c k r.toInt) :
    Follows image inside sized (NextPlaces inside sized f w q.ncol.toInt (nextPlace p q k.toNat))
      (placeNonzero x tp y w c k) (placeNonzero x tp y w c k)
      fun _ => NextPlaces inside sized f w q.ncol.toInt (nextPlace p q (k + 1).toNat) := by
  have hnonzero : inside → ∃ i, IsNonzero tp p c k i := fun hin =>
    let ⟨r, _, hr⟩ := hk hin
    ⟨r.toInt, hr⟩
  refine .row_bind hnonzero fun i hi => ?_
  have hrow : inside → ∃ r : Int64, p.rows[k.toNat]? = some r ∧ 0 ≤ r ∧
      i = (r.toNatClampNeg : Int) ∧ i < q.ncol.toInt := by
    intro hin
    obtain ⟨r, hr, hrk⟩ := hk hin
    obtain rfl : r.toInt = i := Option.some.inj (hrk.row?.symm.trans (hi hin).row?)
    have h0 : 0 ≤ r := Int64.le_iff_toInt_le.2 hrk.row_nonneg
    refine ⟨r, hr, h0, Int64.toInt_eq_toNatClampNeg h0, ?_⟩
    rw [(Pattern.of_transpose ht).2.1]
    exact hrk.row_lt
  -- The place `j` is read from the memory : only the invariant says which one it is.
  refine (NextPlaces.readIWork h hw fun hin => ?_).bind fun j => .of_fact fun hj =>
    (NextPlaces.writeIWork h hw fun hin => ?_).bind fun _ =>
      Follows.bind (h.follows_readWork NextPlaces.steady fun hin => ?_) fun v =>
        h.follows_writeWork NextPlaces.steady (fun hin => ?_) v
  · obtain ⟨r, -, -, rfl, hlt⟩ := hrow hin
    exact ⟨_, rfl, by omega, hlt⟩
  · obtain ⟨r, hr, h0, rfl, hlt⟩ := hrow hin
    have hnext : (k + 1).toNat = k.toNat + 1 := by
      have := (hi hin).nonneg
      omega
    have hncol := q.ncol.toInt_lt
    refine ⟨r.toNatClampNeg, rfl, by omega, ?_, fun s hs hne => ⟨hs, ?_⟩⟩
    · rw [hj hin, hnext, nextPlace_succ hr h0 (Int64.toNatClampNeg_lt r), if_pos rfl,
        Int.toNat_natCast, Nat.cast_succ]
    · rw [hnext, nextPlace_succ hr h0 (by omega), if_neg hne]
  · exact (hx hin).spans.place_lt (hi hin).nonneg (hi hin).lt
  · obtain ⟨r, hr, -, rfl, -⟩ := hrow hin
    have hplace := nextPlace_lt (hx hin).wellFormed (hy hin).wellFormed ht hr
    rw [hj hin, Int.toNat_natCast]
    exact (hy hin).spans.place_lt (by omega) (by exact_mod_cast hplace)

/-- Before column `c`, the nonzeros of the columns before it have been placed, and after it those of
the column too. -/
theorem follows_column (h : Mirrors f layout image) (hx : inside → f.HasMatrix x tp p)
    (hy : inside → f.HasMatrix y tq q) (hw : 0 ≤ w) (hstop : w + q.ncol.toInt ≤ f.iwork.toInt)
    (ht : p.transpose = .ok (q, numbers)) (h0 : 0 ≤ c) (hc : inside → c < p.ncol.toInt) :
    Follows image inside sized
      (NextPlaces inside sized f w q.ncol.toInt (nextPlace p q (p.offset c.toNat)))
      (overColumn tp c () fun _ k => placeNonzero x tp y w c k)
      (overColumn tp c () fun _ k => placeNonzero x tp y w c k)
      fun _ =>
        NextPlaces inside sized f w q.ncol.toInt (nextPlace p q (p.offset (c + 1).toNat)) := by
  obtain ⟨c, rfl⟩ := Int.eq_ofNat_of_zero_le h0
  have hcol : inside → c < p.columns := fun hin => by
    have hncol := Int64.toInt_eq_toNatClampNeg (hx hin).wellFormed.ncol_nonneg
    have hlt := hc hin
    rw [Pattern.columns]
    omega
  refine .given_bind (fun hin _ => ⟨_, (hx hin).presents.columnStart? c (hcol hin)⟩)
    fun start hstart => .given_bind
      (fun hin _ => ⟨_, (hx hin).presents.columnStop? c (hcol hin)⟩) fun stop hstop => ?_
  have hends : inside → start = p.offset c ∧ stop = p.offset (c + 1) ∧
      p.offset c ≤ p.offset (c + 1) := fun hin => by
    rw [(hx hin).presents.columnStart? c (hcol hin), Option.some.injEq] at hstart
    rw [(hx hin).presents.columnStop? c (hcol hin), Option.some.injEq] at hstop
    exact ⟨hstart.symm, hstop.symm,
      (hx hin).wellFormed.offset_mono (Nat.le_succ c) (hcol hin)⟩
  have hplace : Follows image inside sized
      (NextPlaces inside sized f w q.ncol.toInt (nextPlace p q start.toNat))
      (loop start stop () fun _ k => placeNonzero x tp y w c k)
      (loop start stop () fun _ k => placeNonzero x tp y w c k)
      fun _ => NextPlaces inside sized f w q.ncol.toInt (nextPlace p q stop.toNat) := by
    refine .loop (I := fun k => NextPlaces inside sized f w q.ncol.toInt (nextPlace p q k.toNat))
      (fun hlt m hm => hm.cast fun hin => ?_) fun _ k hk hlt =>
        h.follows_place hx hy hw ‹_› ht fun hin => ?_
    · have := hends hin
      omega
    · have hbounds := hends hin
      obtain ⟨k, rfl⟩ := Int.eq_ofNat_of_zero_le (a := k) (by omega)
      exact (hx hin).wellFormed.exists_nonzero (k := k) (hx hin).presents (hcol hin) (by omega)
        (by omega)
  refine (hplace.pre fun m hm => hm.cast fun hin => ⟨rfl, ?_⟩).imp
    fun _ m hm => hm.cast fun hin => ⟨rfl, ?_⟩
  · rw [(hends hin).2.1, Int.toNat_natCast, ← Nat.cast_succ, Int.toNat_natCast]
  · rw [(hends hin).1, Int.toNat_natCast, Int.toNat_natCast]

theorem transpose (h : Mirrors f layout image) (hx : inside → f.HasMatrix x tp p)
    (hy : inside → f.HasMatrix y tq q) (hw : 0 ≤ w) (hstop : w + q.ncol.toInt ≤ f.iwork.toInt)
    (ht : p.transpose = .ok (q, numbers)) :
    Mirrored image inside sized f (Exec.transpose x tp y tq w) := by
  refine .ncol_bind (fun hin => (hy hin).presents) fun n hn =>
    (h.follows_starts hy hw hstop hn).bind fun _ =>
      .ncol_bind (fun hin => (hx hin).presents) fun n hn => ?_
  refine ((Follows.loop
    (I := fun c => NextPlaces inside sized f w q.ncol.toInt (nextPlace p q (p.offset c.toNat)))
    (fun hlt m hm => hm.cast fun _ => ⟨rfl, ?_⟩) fun _ c h0 hc =>
      h.follows_column hx hy hw hstop ht h0 fun hin => hn hin ▸ hc).pre fun m hm =>
        hm.cast fun hin => ⟨rfl, ?_⟩).imp fun _ _ hm => hm.fits
  · rw [Int.toNat_of_nonpos hlt.le, Int.toNat_zero]
  · -- No nonzero has been placed yet.
    funext r
    simp [nextPlace, (hx hin).wellFormed.offset_zero]

end Mirrors

/-! ## Inputs and outputs -/

section Nonzeros

variable {rows : List (Option (List K))} {patterns : List (Option SharedPattern)}
  {arg nonzero : Int64}

theorem Shaped.arg_lt (h : Shaped rows patterns) (hn : HasNonzero patterns arg nonzero) :
    0 ≤ arg.toInt ∧ arg.toInt < rows.length := by
  have hlt := Int64.lt_iff_toInt_lt.1 hn.arg_lt
  rw [h.length]
  exact ⟨Int64.le_iff_toInt_le.1 hn.arg_nonneg, hlt.trans_le (toInt_ofNat_le _)⟩

theorem Shaped.length_row (h : Shaped rows patterns) (harg : 0 ≤ arg.toInt) {row : List K}
    (hrow : elementAt? rows arg.toInt = some (some row)) :
    row.length = Routine.nonzeros [(patterns[arg.toNatClampNeg]?).join] := by
  rw [elementAt?, if_pos harg] at hrow
  exact h.nonzeros _ row hrow

theorem HasNonzero.lt_length (hn : HasNonzero patterns arg nonzero) {row : List K}
    (hrow : row.length = Routine.nonzeros [(patterns[arg.toNatClampNeg]?).join]) :
    0 ≤ nonzero.toInt ∧ nonzero.toInt < row.length := by
  have hlt := Int64.lt_iff_toInt_lt.1 hn.lt
  rw [hrow]
  exact ⟨Int64.le_iff_toInt_le.1 hn.nonneg, hlt.trans_le (toInt_ofNat_le _)⟩

theorem Shaped.set (h : Shaped rows patterns) {i : Nat} {row : List K}
    (hrow : row.length = Routine.nonzeros [(patterns[i]?).join]) :
    Shaped (rows.set i (some row)) patterns := by
  refine ⟨by rw [List.length_set, h.length], fun j other hother => ?_⟩
  rw [List.getElem?_set] at hother
  split_ifs at hother with hij hlt
  · obtain rfl := Option.some.inj (Option.some.inj hother)
    rw [hrow, hij]
  · exact h.nonzeros j other hother

theorem shaped_singleton {row : List K} {sp : SharedPattern} (h : row.length = sp.pattern.nnz) :
    Shaped [some row] [some sp] := by
  refine ⟨rfl, fun i other hother => ?_⟩
  obtain ⟨hi, he⟩ := List.getElem?_eq_some_iff.1 hother
  obtain rfl : i = 0 := by simpa using hi
  obtain rfl := Option.some.inj he
  exact h

theorem Call.exists_nonzero? [Scalar K] {call : Call K} (h : Shaped call.args patterns)
    (hn : HasNonzero patterns arg nonzero) : ∃ v, call.nonzero? arg nonzero = some v := by
  obtain ⟨h0, hlt⟩ := h.arg_lt hn
  obtain ⟨row, hrow⟩ := exists_elementAt? h0 hlt
  cases row with
  | none => exact ⟨Scalar.zero, by simp [Call.nonzero?, hrow]⟩
  | some row =>
    obtain ⟨hk, hklt⟩ := hn.lt_length (h.length_row h0 hrow)
    obtain ⟨v, hv⟩ := exists_elementAt? hk hklt
    exact ⟨v, by simp [Call.nonzero?, hrow, hv]⟩

end Nonzeros

/-! ## Instructions -/

namespace Instr

/-- The patterns of the matrices that an instruction works on. -/
def operands : Instr K → List SharedPattern
  | bilinear _ _ sp _ _ | rank1 _ sp _ _ _ => sp.toList
  | project _ sp _ sq _ | transpose _ sp _ sq _ => sp.toList ++ sq.toList
  | multiply _ sp _ sq _ sr _ _ => sp.toList ++ sq.toList ++ sr.toList
  | _ => []

variable [Scalar K] {call : Call K}

theorem follows_output (h : Mirrors f layout image) {res nonzero slot : Int64}
    (hslot : 0 ≤ slot ∧ slot < f.scalars) (hn : HasNonzero f.outputs res nonzero) :
    Follows image inside sized (Fits sized f)
      ((output res nonzero slot : Instr K).exec .locals call)
      ((output res nonzero slot : Instr K).exec layout call) fun _ => Fits sized f := by
  have h0 := Int64.le_iff_toInt_le.1 hn.arg_nonneg
  refine ((Follows.read h.results fun _ hsized m hm =>
    (hm.sizedFor hsized).results.arg_lt hn).imp fun row m hm =>
      ⟨hm.1, fun hsized r hr =>
        (hm.1.sizedFor hsized).results.length_row h0 (hr ▸ hm.2)⟩).bind fun row =>
          Follows.of_fact (φ := sized → ∀ r, row = some r →
            r.length = Routine.nonzeros [(f.outputs[res.toNatClampNeg]?).join]) fun hlen => ?_
  cases row with
  | none => exact .pure ()
  | some row =>
    refine (h.follows_readSlot hslot).bind fun v =>
      .given_bind (fun _ hsized => ?_) fun row' hrow' => .write h.results h.setResults
        (fun _ hsized m hm => (hm.sizedFor hsized).results.arg_lt hn) fun m hm _ _ =>
          ⟨⟨hm.parted.slots, hm.parted.work⟩, fun hsized => ?_⟩
    · obtain ⟨hk, hlt⟩ := hn.lt_length (hlen hsized row rfl)
      exact ⟨_, replaceAt?_eq hk hlt v⟩
    · have hsizes := hm.sizedFor hsized
      obtain ⟨hk, hlt⟩ := hn.lt_length (hlen hsized row rfl)
      rw [replaceAt?_eq hk hlt, Option.some.injEq] at hrow'
      refine ⟨hsizes.slots, hsizes.work, hsizes.iwork, hsizes.results.set ?_⟩
      rw [← hrow', List.length_set]
      exact hlen hsized row rfl

/-- An instruction that passes the checks does the same on a memory and on its image. -/
theorem Sound.follows_exec {instr : Instr K} (hs : instr.Sound f) (h : Mirrors f layout image)
    (hargs : sized → Shaped call.args f.inputs)
    (hoperands : inside → ∀ sp ∈ instr.operands,
      sp.pattern.WellFormed ∧ sp.pattern.Presents sp.pattern.compress)
    (hends : ∀ r ∈ instr.workRanges ++ instr.iworkRanges, r.stop < 2 ^ 63) :
    Follows image inside sized (Fits sized f) (instr.exec .locals call) (instr.exec layout call)
      fun _ => Fits sized f := by
  have hspan : ∀ r ∈ instr.workRanges, inside → f.Spans r.offset.toInt r.size.toInt :=
    fun r hr _ => ⟨Int64.le_iff_toInt_le.1 (hs.work r hr).offset_nonneg,
      (hs.work r hr).stop_le_toInt (hends r (List.mem_append_left _ hr))⟩
  have hmatrix : ∀ {a : Int64} {sp : SharedPattern}, sp ∈ instr.operands →
      ⟨a, Int64.ofNat sp.pattern.nnz⟩ ∈ instr.workRanges → inside →
      f.HasMatrix a.toInt sp.pattern.compress sp.pattern := by
    intro a sp hsp hr hin
    obtain ⟨hwell, hpresents⟩ := hoperands hin sp hsp
    have hspans := hspan _ hr hin
    rw [Int64.toInt_ofNat_of_lt hwell.nnz_lt] at hspans
    exact ⟨hwell, hpresents, hspans⟩
  cases instr with
  | input slot arg nonzero =>
    exact .given_bind (fun _ hsized => Call.exists_nonzero? (hargs hsized) hs.matched) fun v _ =>
      h.follows_writeSlot (hs.slots slot List.mem_cons_self) v
  | output res nonzero slot => exact follows_output h (hs.slots slot List.mem_cons_self) hs.matched
  | const slot v => exact h.follows_writeSlot (hs.slots slot List.mem_cons_self) v
  | apply c slot x y =>
    have hslots := hs.slots
    rcases hs.matched with ⟨u, hop⟩ | ⟨b, hop⟩
    · simp only [Instr.slots, hop] at hslots
      simp only [exec, hop]
      exact (h.follows_readSlot (hslots x (by simp))).bind fun _ =>
        h.follows_writeSlot (hslots slot (by simp)) _
    · simp only [Instr.slots, hop] at hslots
      simp only [exec, hop]
      exact (h.follows_readSlot (hslots x (by simp))).bind fun _ =>
        (h.follows_readSlot (hslots y (by simp))).bind fun _ =>
          h.follows_writeSlot (hslots slot (by simp)) _
  | gather slot offset =>
    have hread : Mirrored image inside sized f (readWork (offset.toInt + 0)) :=
      h.read (hspan ⟨offset, 1⟩ List.mem_cons_self) le_rfl Int.one_pos
    rw [add_zero] at hread
    exact hread.bind fun v => h.follows_writeSlot (hs.slots slot List.mem_cons_self) v
  | scatter offset slot =>
    have hwrite (v : K) : Mirrored image inside sized f (writeWork (offset.toInt + 0) v) :=
      h.write (hspan ⟨offset, 1⟩ List.mem_cons_self) le_rfl Int.one_pos v
    rw [add_zero] at hwrite
    exact (h.follows_readSlot (hs.slots slot List.mem_cons_self)).bind hwrite
  | constArray offset values =>
    exact h.copy (fun i h0 hi => .given fun _ _ =>
      exists_elementAt? h0 (hi.trans_le (toInt_ofNat_le _))) (hspan _ List.mem_cons_self)
  | constElement slot values index =>
    obtain ⟨h0, hlt⟩ := hs.matched
    exact .given_bind (fun _ _ => exists_elementAt? (Int64.le_iff_toInt_le.1 h0)
      ((Int64.lt_iff_toInt_lt.1 hlt).trans_le (toInt_ofNat_le _))) fun v _ =>
        h.follows_writeSlot (hs.slots slot List.mem_cons_self) v
  | fill offset n v => exact h.copy (fun _ _ _ => .pure v) (hspan _ List.mem_cons_self)
  | copy source n target =>
    exact h.copy (fun i h0 hi => h.read (hspan ⟨source, n⟩ (by simp [workRanges])) h0 hi)
      (hspan ⟨target, n⟩ (by simp [workRanges]))
  | swap n x y =>
    exact h.swap (hspan ⟨x, n⟩ (by simp [workRanges])) (hspan ⟨y, n⟩ (by simp [workRanges]))
  | scale n alpha x =>
    exact (h.follows_readSlot (hs.slots alpha List.mem_cons_self)).bind fun v =>
      h.scale v (hspan _ List.mem_cons_self)
  | axpy n alpha x y =>
    exact (h.follows_readSlot (hs.slots alpha List.mem_cons_self)).bind fun v =>
      h.axpy v (hspan ⟨x, n⟩ (by simp [workRanges])) (hspan ⟨y, n⟩ (by simp [workRanges]))
  | dot slot n x y =>
    exact (h.dot (hspan ⟨x, n⟩ (by simp [workRanges]))
      (hspan ⟨y, n⟩ (by simp [workRanges]))).bind fun v =>
        h.follows_writeSlot (hs.slots slot List.mem_cons_self) v
  | reduce kind slot n x =>
    exact (h.reduce call.ofPlace kind (hspan _ List.mem_cons_self)).bind fun v =>
      h.follows_writeSlot (hs.slots slot List.mem_cons_self) v
  | bilinear slot a sp x y =>
    obtain ⟨p, rfl⟩ := Option.isSome_iff_exists.1 hs.matched
    refine .given_bind (fun _ _ => ⟨_, rfl⟩) fun table htable => ?_
    obtain rfl := Option.some.inj htable
    refine Follows.bind (h.bilinear (hmatrix ?_ ?_) (hspan ⟨x, p.pattern.nrow⟩ ?_)
      (hspan ⟨y, p.pattern.ncol⟩ ?_)) fun v =>
        h.follows_writeSlot (hs.slots slot List.mem_cons_self) v
    all_goals simp [operands, workRanges]
  | rank1 a sp alpha x y =>
    obtain ⟨p, rfl⟩ := Option.isSome_iff_exists.1 hs.matched
    refine .given_bind (fun _ _ => ⟨_, rfl⟩) fun table htable => ?_
    obtain rfl := Option.some.inj htable
    refine (h.follows_readSlot (hs.slots alpha List.mem_cons_self)).bind fun v =>
      h.rankOne v (hmatrix ?_ ?_) (hspan ⟨x, p.pattern.nrow⟩ ?_) (hspan ⟨y, p.pattern.ncol⟩ ?_)
    all_goals simp [operands, workRanges]
  | project source spSource target spTarget temporary =>
    obtain ⟨p, q, rfl, rfl, hsize⟩ := hs.matched
    simp only [Pattern.sameSize, Bool.and_eq_true, beq_iff_eq] at hsize
    have hp : inside → f.HasMatrix source.toInt _ p.pattern :=
      hmatrix (by simp [operands]) (by simp [workRanges])
    have hq : inside → f.HasMatrix target.toInt _ q.pattern :=
      hmatrix (by simp [operands]) (by simp [workRanges])
    have hw := hspan ⟨temporary, p.pattern.nrow⟩ (by simp [workRanges])
    simp only [exec]
    split_ifs with heq
    · -- Equal patterns have as many nonzeros.
      have heq : p.pattern = q.pattern := by simpa using heq
      exact h.copy (fun i h0 hi => h.read (hspan
        ⟨source, Int64.ofNat p.pattern.nnz⟩ (by simp [workRanges])) h0 hi) (hspan
          ⟨target, Int64.ofNat p.pattern.nnz⟩ (by simp [workRanges, heq]))
    · refine .given_bind (fun _ _ => ⟨_, rfl⟩) fun tx htx =>
        .given_bind (fun _ _ => ⟨_, rfl⟩) fun ty hty => ?_
      obtain rfl := Option.some.inj htx
      obtain rfl := Option.some.inj hty
      exact h.project hp hq hw hsize.1.symm hsize.2.symm
  | transpose source spSource target spTarget temporary =>
    obtain ⟨p, q, rfl, rfl, numbers, ht⟩ := hs.matched
    have hw := hs.iwork ⟨temporary, q.pattern.ncol⟩ List.mem_cons_self
    refine .given_bind (fun _ _ => ⟨_, rfl⟩) fun tx htx =>
      .given_bind (fun _ _ => ⟨_, rfl⟩) fun ty hty => ?_
    obtain rfl := Option.some.inj htx
    obtain rfl := Option.some.inj hty
    refine h.transpose (hmatrix ?_ ?_) (hmatrix ?_ ?_) (Int64.le_iff_toInt_le.1 hw.offset_nonneg)
      (hw.stop_le_toInt (hends _ ?_)) ht
    all_goals simp [operands, workRanges, iworkRanges]
  | multiply x spX y spY z spZ temporary transposed =>
    obtain ⟨p, q, r, rfl, rfl, rfl, hinner, hrow, hcol⟩ := hs.matched
    have hp : inside → f.HasMatrix x.toInt _ p.pattern :=
      hmatrix (by simp [operands]) (by simp [workRanges])
    have hq : inside → f.HasMatrix y.toInt _ q.pattern :=
      hmatrix (by simp [operands]) (by simp [workRanges])
    have hr : inside → f.HasMatrix z.toInt _ r.pattern :=
      hmatrix (by simp [operands]) (by simp [workRanges])
    have hw := hspan ⟨temporary, if transposed then q.pattern.nrow else r.pattern.nrow⟩
      (by simp [workRanges])
    refine .given_bind (fun _ _ => ⟨_, rfl⟩) fun tx htx => .given_bind (fun _ _ => ⟨_, rfl⟩)
      fun ty hty => .given_bind (fun _ _ => ⟨_, rfl⟩) fun tz htz => ?_
    obtain rfl := Option.some.inj htx
    obtain rfl := Option.some.inj hty
    obtain rfl := Option.some.inj htz
    cases transposed with
    | true => exact h.multiplyTransposed hp hq hr hw hinner hrow hcol
    | false => exact h.multiply hp hq hr hw hinner hrow hcol
  | external slot name args =>
    refine (Follows.mapM fun i hi => ?_).bind fun vs => ?_
    · exact h.follows_readSlot (hs.slots i (List.mem_cons_of_mem slot hi))
    · exact h.follows_writeSlot (hs.slots slot List.mem_cons_self) _

end Instr

/-- An accepted routine does the same on a memory and on its image. -/
theorem Routine.follows_exec [Scalar K] (call : Call K) (hf : f.validate = .ok ())
    (h : Mirrors f layout image) (hargs : sized → Shaped call.args f.inputs)
    (hends : ∀ instr ∈ f.body, ∀ r ∈ instr.workRanges ++ instr.iworkRanges, r.stop < 2 ^ 63)
    (hoperands : inside → ∀ instr ∈ f.body, ∀ sp ∈ instr.operands,
      sp.pattern.WellFormed ∧ sp.pattern.Presents sp.pattern.compress) :
    Follows image inside sized (Fits sized f) (f.exec .locals call) (f.exec layout call)
      fun _ => Fits sized f :=
  .forM fun instr hi => ((validate_ok_iff.1 hf).2.2 instr hi).follows_exec h hargs
    (fun hin => hoperands hin instr hi) (hends instr hi)

end Tangent
