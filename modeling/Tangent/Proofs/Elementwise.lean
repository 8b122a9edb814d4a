import Mathlib
import Tangent.Proofs.Always
import Tangent.Proofs.Densify
import Tangent.Proofs.DoubleEquality
import Tangent.Proofs.ZeroOperands

/-!
# Operations on sparse matrices are operations place by place

An operation on matrices works with the nonzeros alone, if that is enough, or with all places. In
either way the result has at every place what the operation gives for the entries there, and leaves
out only zeros (`SparseMatrix.Represents`). With the nonzeros alone, this is so because the
operation was tried on a zero before. With all places it is so because the zeros that were filled in
are as good as any others (`Builder.expr_settle_getD`).

A matrix is changed by itself or with a scalar (`Sound.answers_spread`), or two matrices of one size
are combined (`Sound.answers_zip`). Which of these it is depends on the sizes
(`answers_elementwise`).
-/

namespace Tangent.SparseMatrix

variable {K : Type} [Scalar K] {m : SparseMatrix K}

/-! ## What an operation answers -/

/-- The matrix has the size of the pattern. At a place it has the given expression, unless that is
zero and is left out. -/
structure Represents (p : Pattern) (expr : Int64 → Int64 → Term K) (z : SparseMatrix K) :
    Prop where
  sound : z.Sound
  nrow : z.pattern.nrow = p.nrow
  ncol : z.pattern.ncol = p.ncol
  place : ∀ r c, Cell.inRange p.nrow p.ncol { row := r, col := c } →
    (z.get? r c).map Node.expr = some (expr r c) ∨ z.get? r c = none ∧ (expr r c).isZero

/-- If there is room, the answer is a matrix with these expressions. -/
structure Answers (room : Prop) (p : Pattern) (expr : Int64 → Int64 → Term K)
    (result : Result (SparseMatrix K)) : Prop where
  ok : room → ∃ z, result = .ok z ∧ z.Represents p expr
  fault : ¬room → result = .fault .outOfRange

theorem Answers.congr {room room' : Prop} {p q : Pattern} {expr expr' : Int64 → Int64 → Term K}
    {result : Result (SparseMatrix K)} (h : Answers room p expr result) (hroom : room' ↔ room)
    (hnrow : p.nrow = q.nrow) (hncol : p.ncol = q.ncol)
    (hexpr : ∀ r c, Cell.inRange q.nrow q.ncol { row := r, col := c } → expr r c = expr' r c) :
    Answers room' q expr' result := by
  rw [← hroom] at h
  refine ⟨fun hyes => ?_, h.fault⟩
  obtain ⟨z, hz, hrep⟩ := h.ok hyes
  refine ⟨z, hz, hrep.sound, hrep.nrow.trans hnrow, hrep.ncol.trans hncol, fun r c hrc => ?_⟩
  rw [← hexpr r c hrc]
  exact hrep.place r c (hnrow ▸ hncol ▸ hrc)

/-- The results of a build one after the other, if they do not depend on the supply. -/
theorem map_mapM {α β γ : Type} {f : α → Build β} {φ : β → γ} {g : α → γ}
    (h : ∀ a next, φ (f a next).1 = g a) :
    ∀ (as : List α) (next : Nat), (as.mapM f next).1.map φ = as.map g
  | [], next => rfl
  | a :: as, next => by
    rw [List.mapM_cons]
    exact congrArg₂ List.cons (h a next) (map_mapM h as (f a next).2)

/-! ## Operations on one matrix -/

section Spread

variable {f : Node K → Build (Node K)} {g : Node K → Term K}

omit [Scalar K] in
theorem Sound.mapNodes (h : m.Sound) (hf : ∀ n next, (f n next).1.expr = g n) (next : Nat) :
    (m.mapNodes f next).1.Sound ∧ (m.mapNodes f next).1.pattern = m.pattern ∧
      ∀ r c, ((m.mapNodes f next).1.get? r c).map Node.expr = (m.get? r c).map g := by
  have hn : (m.mapNodes f next).1.nonzeros.map Node.expr = m.nonzeros.map g := map_mapM hf _ next
  have hlen := congrArg List.length hn
  rw [List.length_map, List.length_map] at hlen
  refine ⟨⟨h.wellFormed, h.entriesFit, hlen.trans h.filled⟩, rfl, fun r c => ?_⟩
  rw [get?, get?]
  change (Option.bind (m.pattern.find? r c) _).map _ = _
  cases m.pattern.find? r c with
  | none => rfl
  | some k => rw [Option.bind_some, Option.bind_some, ← List.getElem?_map, hn, List.getElem?_map]

/-- Change the nonzeros alone, or all places. -/
def spread (m : SparseMatrix K) (sparse : Bool) (f : Node K → Build (Node K)) :
    Building (SparseMatrix K) := do
  let m ← if sparse then pure m else m.densify
  m.mapNodes f

/-- Where the nonzeros alone are changed, zero stays zero. So the result is as if all places were
changed. -/
theorem Sound.answers_spread (h : m.Sound) (hf : ∀ n next, (f n next).1.expr = g n)
    {start next i : Nat} (hle : start ≤ next) (hi : start ≤ i)
    (hg : ∀ j k, start ≤ j → start ≤ k → g (.const j Scalar.zero) = g (.const k Scalar.zero))
    {sparse : Bool} (hsparse : sparse → (g (.const start Scalar.zero)).isZero) :
    Answers (sparse ∨ m.CanDensify) m.pattern
      (fun r c => g ((m.get? r c).getD (.const i Scalar.zero)))
      ((m.spread sparse f).run next).1 := by
  cases sparse with
  | true =>
    obtain ⟨hsound, hpattern, hget⟩ := h.mapNodes hf next
    refine ⟨fun _ => ⟨(m.mapNodes f next).1, rfl, hsound, by rw [hpattern], by rw [hpattern], ?_⟩,
      fun hroom => absurd (Or.inl rfl) hroom⟩
    intro r c _
    have hplace := hget r c
    cases hn : m.get? r c with
    | none =>
      rw [hn, Option.map_none, Option.map_eq_none_iff] at hplace
      refine .inr ⟨hplace, ?_⟩
      rw [Option.getD_none, hg i start hi (Nat.le_refl _)]
      exact hsparse rfl
    | some n => exact .inl (hplace.trans (by rw [hn]; rfl))
  | false =>
    rw [or_iff_right Bool.false_ne_true]
    refine ⟨fun hroom => ?_, fun hroom => ?_⟩
    · obtain ⟨m', k, next', hrun, hk, -, hd⟩ := h.exists_densified hroom next
      obtain ⟨hsound, hpattern, hget⟩ := hd.sound.mapNodes hf next'
      refine ⟨(m'.mapNodes f next').1, congrArg Prod.fst (Building.run_bind_ok hrun), hsound,
        by rw [hpattern, hd.nrow], by rw [hpattern, hd.ncol], fun r c hrc => .inl ?_⟩
      rw [hget, hd.get? r c hrc, Option.map_some]
      cases m.get? r c with
      | none => rw [Option.getD_none, Option.getD_none, hg k i (hle.trans hk) hi]
      | some n => rfl
    · exact congrArg Prod.fst (Building.run_bind_error (h.densify_fault hroom next))

end Spread

/-! ## Operations on a matrix and a scalar -/

/-- The operation is tried on a zero first. -/
theorem run_broadcast (m : SparseMatrix K) (f : Node K → Build (Node K)) (next : Nat) :
    (m.broadcast f).run next =
      (m.spread (f (.const next Scalar.zero) (next + 1)).1.isZero f).run
        (f (.const next Scalar.zero) (next + 1)).2 := by
  have hzero : (Node.newConst Scalar.zero : Building (Node K)).run next =
      (.ok (.const next Scalar.zero), next + 1) := rfl
  have htry : ∀ n, (f n : Building (Node K)).run (next + 1) =
      (.ok (f n (next + 1)).1, (f n (next + 1)).2) := fun _ => rfl
  exact (Building.run_bind_ok hzero).trans (Building.run_bind_ok (htry _))

theorem le_make (b : Builder) (f : Form K) (next : Nat) : next ≤ (b.make f next).2 := by
  unfold Builder.make
  cases b.settle f with
  | node n => exact Nat.le_refl next
  | _ => exact Nat.le_succ next

theorem Sound.answers_broadcast (h : m.Sound) (b : Builder) (f : Node K → Form K) {next i : Nat}
    (hi : next ≤ i)
    (hf : ∀ j k, next ≤ j → next ≤ k →
      (b.settle (f (.const j Scalar.zero))).expr = (b.settle (f (.const k Scalar.zero))).expr) :
    Answers ((b.settle (f (.const next Scalar.zero))).expr.isZero ∨ m.CanDensify) m.pattern
      (fun r c => (b.settle (f ((m.get? r c).getD (.const i Scalar.zero)))).expr)
      ((m.broadcast fun n => b.make (f n)).run next).1 := by
  rw [run_broadcast, ← Node.isZero_expr, b.expr_make]
  exact h.answers_spread (fun n next => b.expr_make (f n) next)
    ((Nat.le_succ next).trans (le_make b _ (next + 1))) hi hf id

/-! ## Operations on two matrices of one size -/

section Zip

variable {x y : SparseMatrix K} {b : Builder} {op : Binary}

/-- The expression of an operation on two nodes. -/
def applied (b : Builder) (op : Binary) (x y : Node K) : Term K :=
  (b.settle (.binary op x y)).expr

theorem expr_binary (b : Builder) (op : Binary) (x y : Node K) (next : Nat) :
    (b.binary op x y next).1.expr = applied b op x y :=
  b.expr_make _ next

/-- The nonzeros of two matrices of one pattern, taken together. -/
def combine (b : Builder) (op : Binary) (x y : SparseMatrix K) : Build (SparseMatrix K) := do
  let nonzeros ← (x.nonzeros.zip y.nonzeros).mapM fun p => b.binary op p.1 p.2
  return { sp := x.sp, nonzeros }

theorem Sound.combined (b : Builder) (op : Binary) (hx : x.Sound) (hy : y.Sound)
    (hp : x.pattern = y.pattern) (next : Nat) :
    (combine b op x y next).1.Sound ∧ (combine b op x y next).1.pattern = x.pattern ∧
      ∀ r c, ((combine b op x y next).1.get? r c).map Node.expr =
        Option.map₂ (applied b op) (x.get? r c) (y.get? r c) := by
  have hn : (combine b op x y next).1.nonzeros.map Node.expr =
      (x.nonzeros.zip y.nonzeros).map fun p => applied b op p.1 p.2 :=
    map_mapM (fun p next => expr_binary b op p.1 p.2 next) _ next
  have hxy : x.nonzeros.length = y.nonzeros.length :=
    hx.filled.trans ((congrArg Pattern.nnz hp).trans hy.filled.symm)
  have hlen := congrArg List.length hn
  rw [List.length_map, List.length_map, List.length_zip, ← hxy, Nat.min_self] at hlen
  refine ⟨⟨hx.wellFormed, hx.entriesFit, hlen.trans hx.filled⟩, rfl, fun r c => ?_⟩
  rw [get?]
  change (Option.bind (x.pattern.find? r c) _).map _ = _
  cases hk : x.pattern.find? r c with
  | none =>
    rw [get?, hk]
    rfl
  | some k =>
    obtain ⟨xn, hxk, hxn⟩ := hx.exists_get? hk
    obtain ⟨yn, hyk, hyn⟩ := hy.exists_get? (hp ▸ hk)
    have hzip : (x.nonzeros.zip y.nonzeros)[k]? = some (xn, yn) :=
      List.getElem?_zip_eq_some.2 ⟨hxk, hyk⟩
    rw [Option.bind_some, ← List.getElem?_map, hn, List.getElem?_map, hxn, hyn, hzip]
    rfl

/-- The nonzeros alone are combined: they are at the same places, and the operation takes two zeros
to zero. -/
def staysSparse (op : Binary) (x y : SparseMatrix K) : Bool :=
  x.pattern = y.pattern && Scalar.keepsZero₂ K op

theorem run_combine (b : Builder) (op : Binary) (x y : SparseMatrix K) (next : Nat) :
    (do
      let nonzeros ← (x.nonzeros.zip y.nonzeros).mapM fun p => (b.binary op p.1 p.2 : Building _)
      return ({ sp := x.sp, nonzeros } : SparseMatrix K) : Building _).run next =
        (.ok (combine b op x y next).1, (combine b op x y next).2) :=
  Building.run_bind_ok (Building.run_mapM (fun _ _ => rfl) _ next)

theorem run_zip_of_staysSparse (hsize : x.pattern.sameSize y.pattern)
    (hsparse : staysSparse op x y) (next : Nat) :
    (zip b op x y).run next = (.ok (combine b op x y next).1, (combine b op x y next).2) := by
  unfold staysSparse at hsparse
  unfold zip
  rw [if_pos hsize, hsparse]
  exact run_combine b op x y next

theorem zip_of_not_staysSparse (hsize : x.pattern.sameSize y.pattern)
    (hsparse : ¬staysSparse op x y) :
    zip b op x y = (do
      let x ← x.densify
      let y ← y.densify
      let nonzeros ← (x.nonzeros.zip y.nonzeros).mapM fun p => (b.binary op p.1 p.2 : Building _)
      return { sp := x.sp, nonzeros }) := by
  unfold staysSparse at hsparse
  unfold zip
  rw [if_pos hsize, if_neg hsparse]
  simp only [if_neg hsparse]

theorem isZero_applied_zero (hop : op ≠ .printme) (i j : Nat) :
    (applied b op (.const i (Scalar.zero : K)) (.const j Scalar.zero)).isZero =
      Scalar.keepsZero₂ K op := by
  rw [applied, Builder.settle_const_const hop]
  rfl

theorem Sound.answers_zip_of_staysSparse (hop : op ≠ .printme) (hx : x.Sound) (hy : y.Sound)
    (hsize : x.pattern.sameSize y.pattern) (hsparse : staysSparse op x y) {next i j : Nat} :
    ∃ z, ((zip b op x y).run next).1 = .ok z ∧ z.Represents x.pattern fun r c =>
      applied b op ((x.get? r c).getD (.const i Scalar.zero))
        ((y.get? r c).getD (.const j Scalar.zero)) := by
  obtain ⟨hp, hkeeps⟩ : x.pattern = y.pattern ∧ Scalar.keepsZero₂ K op := by
    simpa [staysSparse] using hsparse
  obtain ⟨hsound, hpattern, hget⟩ := hx.combined b op hy hp next
  refine ⟨_, congrArg Prod.fst (run_zip_of_staysSparse hsize hsparse next), hsound,
    by rw [hpattern], by rw [hpattern], fun r c _ => ?_⟩
  have hplace := hget r c
  cases hk : x.pattern.find? r c with
  | none =>
    have hxnone : x.get? r c = none := by rw [get?, hk, Option.bind_none]
    have hynone : y.get? r c = none := by rw [get?, ← hp, hk, Option.bind_none]
    rw [hxnone, Option.map₂_none_left, Option.map_eq_none_iff] at hplace
    refine .inr ⟨hplace, ?_⟩
    rw [hxnone, hynone, Option.getD_none, Option.getD_none, isZero_applied_zero hop, hkeeps]
  | some k =>
    obtain ⟨xn, -, hxget⟩ := hx.exists_get? hk
    obtain ⟨yn, -, hyget⟩ := hy.exists_get? (hp ▸ hk)
    left
    rw [hplace, hxget, hyget]
    rfl

theorem Sound.answers_zip_of_canDensify (hzero : Scalar.isZero (Scalar.zero : K))
    (hop : op ≠ .printme) {next i j : Nat} (hxn : ∀ n ∈ x.nonzeros, n.id < next)
    (hyn : ∀ n ∈ y.nonzeros, n.id < next) (hx : x.Sound) (hy : y.Sound)
    (hsize : x.pattern.sameSize y.pattern) (hsparse : ¬staysSparse op x y) (hxroom : x.CanDensify)
    (hyroom : y.CanDensify) (hi : next ≤ i) (hj : next ≤ j) :
    ∃ z, ((zip b op x y).run next).1 = .ok z ∧ z.Represents x.pattern fun r c =>
      applied b op ((x.get? r c).getD (.const i Scalar.zero))
        ((y.get? r c).getD (.const j Scalar.zero)) := by
  obtain ⟨x', k, next₁, hxrun, hk, hle, hxd⟩ := hx.exists_densified hxroom next
  obtain ⟨y', l, next₂, hyrun, hl, -, hyd⟩ := hy.exists_densified hyroom next₁
  obtain ⟨hsound, hpattern, hget⟩ :=
    hxd.sound.combined b op hyd.sound (hxd.pattern_eq hyd hsize) next₂
  obtain ⟨hnrow, hncol⟩ := Pattern.sameSize_iff.1 hsize
  refine ⟨(combine b op x' y' next₂).1, ?_, hsound, by rw [hpattern, hxd.nrow],
    by rw [hpattern, hxd.ncol], fun r c hrc => .inl ?_⟩
  · rw [zip_of_not_staysSparse hsize hsparse, Building.run_bind_ok hxrun,
      Building.run_bind_ok hyrun]
    exact congrArg Prod.fst (run_combine b op x' y' next₂)
  · rw [hget, hxd.get? r c hrc, hyd.get? r c (hnrow ▸ hncol ▸ hrc), Option.map₂_some_some,
      applied, applied]
    refine congrArg some (Builder.expr_settle_getD hzero hop ?_ ?_ hk (hle.trans hl) hi hj)
    · exact fun n hn => hxn n (mem_nonzeros_of_get? hn)
    · exact fun n hn => hyn n (mem_nonzeros_of_get? hn)

theorem Sound.zip_fault (hx : x.Sound) (hy : y.Sound) (hsize : x.pattern.sameSize y.pattern)
    (hsparse : ¬staysSparse op x y) (hroom : ¬(x.CanDensify ∧ y.CanDensify)) (next : Nat) :
    ((zip b op x y).run next).1 = .error (.fault .outOfRange) := by
  rw [zip_of_not_staysSparse hsize hsparse]
  by_cases hxroom : x.CanDensify
  · obtain ⟨x', k, next₁, hxrun, -⟩ := hx.exists_densified hxroom next
    have hyroom : ¬y.CanDensify := fun hyroom => hroom ⟨hxroom, hyroom⟩
    rw [Building.run_bind_ok hxrun, Building.run_bind_error (hy.densify_fault hyroom next₁)]
  · rw [Building.run_bind_error (hx.densify_fault hxroom next)]

theorem Sound.answers_zip (hzero : Scalar.isZero (Scalar.zero : K)) (hop : op ≠ .printme)
    {next i j : Nat} (hxn : ∀ n ∈ x.nonzeros, n.id < next) (hyn : ∀ n ∈ y.nonzeros, n.id < next)
    (hx : x.Sound) (hy : y.Sound) (hsize : x.pattern.sameSize y.pattern) (hi : next ≤ i)
    (hj : next ≤ j) :
    Answers (staysSparse op x y ∨ x.CanDensify ∧ y.CanDensify) x.pattern
      (fun r c => applied b op ((x.get? r c).getD (.const i Scalar.zero))
        ((y.get? r c).getD (.const j Scalar.zero)))
      ((zip b op x y).run next).1 := by
  by_cases hsparse : staysSparse op x y
  · exact ⟨fun _ => hx.answers_zip_of_staysSparse hop hy hsize hsparse,
      fun hroom => absurd (Or.inl hsparse) hroom⟩
  · rw [or_iff_right hsparse]
    exact ⟨fun hroom => hx.answers_zip_of_canDensify hzero hop hxn hyn hy hsize hsparse hroom.1
      hroom.2 hi hj, fun hroom => hx.zip_fault hy hsize hsparse hroom next⟩

end Zip

/-! ## Operations on any two matrices -/

section Elementwise

variable {x y : SparseMatrix K} {b : Builder} {op : Binary} {next : Nat}

/-- The only node of a dense scalar. -/
def scalar? (m : SparseMatrix K) : Option (Node K) :=
  if m.pattern.isDenseScalar then m.get? 0 0 else none

/-- The node that takes part in an operation at a place: a dense scalar has one for all places. -/
def at? (m : SparseMatrix K) (r c : Int64) : Option (Node K) :=
  if m.pattern.isDenseScalar then m.get? 0 0 else m.get? r c

/-- Neither is a dense scalar, and their sizes differ. -/
def Mismatched (x y : SparseMatrix K) : Prop :=
  ¬x.pattern.isDenseScalar ∧ ¬y.pattern.isDenseScalar ∧ ¬x.pattern.sameSize y.pattern

/-- The pattern of the one that is not a dense scalar, if the other one is. -/
def outer (x y : SparseMatrix K) : Pattern :=
  if x.pattern.isDenseScalar then y.pattern else x.pattern

/-- The nonzeros are enough to work with: the operation gives zero at the structural zeros, and
those of the two matrices are the same, unless one is a dense scalar. -/
def NonzerosSuffice (b : Builder) (op : Binary) (next : Nat) (x y : SparseMatrix K) : Prop :=
  (b.binary op (x.scalar?.getD (.const next Scalar.zero))
      (y.scalar?.getD (.const next Scalar.zero)) next).1.isZero ∧
    (x.pattern.isDenseScalar ≠ y.pattern.isDenseScalar ∨ x.pattern = y.pattern)

omit [Scalar K] in
/-- A dense scalar has one node, and every place. -/
theorem Sound.exists_scalar (h : m.Sound) (hs : m.pattern.isDenseScalar) :
    ∃ s, m.nonzeros = [s] ∧ m.get? 0 0 = some s ∧ m.CanDensify := by
  obtain ⟨hnrow, hncol, hnnz⟩ := Pattern.isDenseScalar_iff.1 hs
  have hdense : m.pattern.isDense := by
    rw [Pattern.isDense, Pattern.numel, hnrow, hncol, hnnz]
    rfl
  obtain ⟨s, hnonzeros⟩ := List.length_eq_one_iff.1 (h.filled.trans hnnz)
  have hget := (h.densified_self hdense s).get? 0 0 (by rw [hnrow, hncol]; decide)
  have hmem := mem_nonzeros_of_get? hget
  rw [hnonzeros, List.mem_singleton] at hmem
  exact ⟨s, hnonzeros, hmem ▸ hget, .inl hdense⟩

omit [Scalar K] in
theorem sameSize_of_isDenseScalar (hx : x.pattern.isDenseScalar) (hy : y.pattern.isDenseScalar) :
    x.pattern.sameSize y.pattern := by
  obtain ⟨hxrow, hxcol, -⟩ := Pattern.isDenseScalar_iff.1 hx
  obtain ⟨hyrow, hycol, -⟩ := Pattern.isDenseScalar_iff.1 hy
  exact Pattern.sameSize_iff.2 ⟨hxrow.trans hyrow.symm, hxcol.trans hycol.symm⟩

variable {c : Opcode}

theorem elementwise_left (hc : c.op? = some (.binary op)) {s : Node K}
    (hx : x.pattern.isDenseScalar = true) (hs : x.nonzeros = [s])
    (hy : y.pattern.isDenseScalar = false) :
    elementwise b c x y = y.broadcast fun n => b.make (.binary op s n) := by
  unfold elementwise
  rw [hc, hx, hy, hs]
  rfl

theorem elementwise_right (hc : c.op? = some (.binary op)) {s : Node K}
    (hx : x.pattern.isDenseScalar = false) (hy : y.pattern.isDenseScalar = true)
    (hs : y.nonzeros = [s]) :
    elementwise b c x y = x.broadcast fun n => b.make (.binary op n s) := by
  unfold elementwise
  rw [hc, hx, hy, hs]
  rfl

theorem elementwise_same (hc : c.op? = some (.binary op))
    (h : x.pattern.isDenseScalar = y.pattern.isDenseScalar) :
    elementwise b c x y = zip b op x y := by
  unfold elementwise
  rw [hc, h]
  cases y.pattern.isDenseScalar <;> rfl

omit [Scalar K] in
/-- Within the size of the matrix itself there is nothing to spread. -/
theorem at?_of_inRange {r c : Int64}
    (h : Cell.inRange m.pattern.nrow m.pattern.ncol { row := r, col := c }) :
    m.at? r c = m.get? r c := by
  unfold at?
  split_ifs with hs
  · obtain ⟨hnrow, hncol, -⟩ := Pattern.isDenseScalar_iff.1 hs
    rw [hnrow, hncol] at h
    obtain ⟨row, hrow, col, hcol, rfl, rfl⟩ := Cell.exists_of_inRange h
    obtain rfl : row = 0 := Nat.lt_one_iff.1 hrow
    obtain rfl : col = 0 := Nat.lt_one_iff.1 hcol
    rfl
  · rfl

/-- For matrices of one size, what can be done with the nonzeros alone is done so. -/
theorem nonzerosSuffice_iff (hop : op ≠ .printme) (hx : x.pattern.isDenseScalar = false)
    (hy : y.pattern.isDenseScalar = false) :
    NonzerosSuffice b op next x y ↔ staysSparse op x y := by
  rw [NonzerosSuffice, scalar?, scalar?, hx, hy, ← Node.isZero_expr, expr_binary, staysSparse,
    Bool.and_eq_true, decide_eq_true_eq, and_comm]
  simp [isZero_applied_zero hop]

theorem nonzerosSuffice_left {s : Node K} (hx : x.pattern.isDenseScalar = true)
    (hs : x.get? 0 0 = some s) (hy : y.pattern.isDenseScalar = false) :
    NonzerosSuffice b op next x y ↔
      (b.settle (.binary op s (.const next Scalar.zero))).expr.isZero := by
  rw [NonzerosSuffice, scalar?, scalar?, hx, hy, hs, ← Node.isZero_expr, expr_binary]
  simp [applied]

theorem nonzerosSuffice_right {s : Node K} (hx : x.pattern.isDenseScalar = false)
    (hy : y.pattern.isDenseScalar = true) (hs : y.get? 0 0 = some s) :
    NonzerosSuffice b op next x y ↔
      (b.settle (.binary op (.const next Scalar.zero) s)).expr.isZero := by
  rw [NonzerosSuffice, scalar?, scalar?, hx, hy, hs, ← Node.isZero_expr, expr_binary]
  simp [applied]

omit [Scalar K] in
theorem sameSize_of_not_mismatched (h : x.pattern.isDenseScalar = y.pattern.isDenseScalar)
    (hmatch : ¬x.Mismatched y) : x.pattern.sameSize y.pattern := by
  cases hx : x.pattern.isDenseScalar with
  | false =>
    by_contra hsize
    exact hmatch ⟨by simp [hx], by simp [← h, hx], hsize⟩
  | true => exact sameSize_of_isDenseScalar hx (h ▸ hx)

section Cases

variable {i j : Nat} (hzero : Scalar.isZero (Scalar.zero : K)) (hop : op ≠ .printme)
  (hc : c.op? = some (.binary op)) (hx : x.Sound) (hy : y.Sound)
  (hxn : ∀ n ∈ x.nonzeros, n.id < next) (hyn : ∀ n ∈ y.nonzeros, n.id < next)
  (hi : next ≤ i) (hj : next ≤ j)

include hzero hop hc hx hy hxn hj in
theorem answers_elementwise_left (hxs : x.pattern.isDenseScalar = true)
    (hys : y.pattern.isDenseScalar = false) :
    Answers (NonzerosSuffice b op next x y ∨ x.CanDensify ∧ y.CanDensify) (x.outer y)
      (fun r s => applied b op ((x.at? r s).getD (.const i Scalar.zero))
        ((y.at? r s).getD (.const j Scalar.zero)))
      ((elementwise b c x y).run next).1 := by
  obtain ⟨s, hs, hget, hcan⟩ := hx.exists_scalar hxs
  have hlt : ∀ n ∈ some s, n.id < next := fun n hn => hxn n (by simp_all)
  have hnone : ∀ n ∈ (none : Option (Node K)), n.id < next := by simp
  have hbroadcast := hy.answers_broadcast b (.binary op s) hj fun k l hk hl =>
    Builder.expr_settle_getD hzero hop hlt hnone hk hk hl hl
  rw [elementwise_left hc hxs hs hys]
  refine hbroadcast.congr ?_ (by simp [outer, hxs]) (by simp [outer, hxs]) fun r c _ => ?_
  · rw [nonzerosSuffice_left hxs hget hys, and_iff_right hcan]
  · simp [at?, hxs, hys, hget, applied]

include hzero hop hc hx hy hyn hi in
theorem answers_elementwise_right (hxs : x.pattern.isDenseScalar = false)
    (hys : y.pattern.isDenseScalar = true) :
    Answers (NonzerosSuffice b op next x y ∨ x.CanDensify ∧ y.CanDensify) (x.outer y)
      (fun r s => applied b op ((x.at? r s).getD (.const i Scalar.zero))
        ((y.at? r s).getD (.const j Scalar.zero)))
      ((elementwise b c x y).run next).1 := by
  obtain ⟨s, hs, hget, hcan⟩ := hy.exists_scalar hys
  have hlt : ∀ n ∈ some s, n.id < next := fun n hn => hyn n (by simp_all)
  have hnone : ∀ n ∈ (none : Option (Node K)), n.id < next := by simp
  have hbroadcast := hx.answers_broadcast b (.binary op · s) hi fun k l hk hl =>
    Builder.expr_settle_getD hzero hop hnone hlt hk hk hl hl
  rw [elementwise_right hc hxs hys hs]
  refine hbroadcast.congr ?_ (by simp [outer, hxs]) (by simp [outer, hxs]) fun r c _ => ?_
  · rw [nonzerosSuffice_right hxs hys hget, and_iff_left hcan]
  · simp [at?, hxs, hys, hget, applied]

include hzero hop hc hx hy hxn hyn hi hj in
theorem answers_elementwise_same (hs : x.pattern.isDenseScalar = y.pattern.isDenseScalar)
    (hmatch : ¬x.Mismatched y) :
    Answers (NonzerosSuffice b op next x y ∨ x.CanDensify ∧ y.CanDensify) (x.outer y)
      (fun r s => applied b op ((x.at? r s).getD (.const i Scalar.zero))
        ((y.at? r s).getD (.const j Scalar.zero)))
      ((elementwise b c x y).run next).1 := by
  have hsize := sameSize_of_not_mismatched hs hmatch
  obtain ⟨hnrow, hncol⟩ := Pattern.sameSize_iff.1 hsize
  have houter : x.pattern.nrow = (x.outer y).nrow ∧ x.pattern.ncol = (x.outer y).ncol := by
    unfold outer
    split_ifs
    · exact ⟨hnrow, hncol⟩
    · exact ⟨rfl, rfl⟩
  rw [elementwise_same hc hs]
  refine (hx.answers_zip hzero hop hxn hyn hy hsize hi hj).congr ?_ houter.1 houter.2
    fun r s hrs => ?_
  · cases hxs : x.pattern.isDenseScalar with
    | true =>
      -- Both have every place, so there is room in any case.
      obtain ⟨-, -, -, hxcan⟩ := hx.exists_scalar hxs
      obtain ⟨-, -, -, hycan⟩ := hy.exists_scalar (hs ▸ hxs)
      exact iff_of_true (.inr ⟨hxcan, hycan⟩) (.inr ⟨hxcan, hycan⟩)
    | false => rw [nonzerosSuffice_iff hop hxs (hs ▸ hxs)]
  · rw [← houter.1, ← houter.2] at hrs
    rw [at?_of_inRange hrs, at?_of_inRange (hnrow ▸ hncol ▸ hrs)]

include hzero hop hc hx hy hxn hyn hi hj in
theorem answers_elementwise (hmatch : ¬x.Mismatched y) :
    Answers (NonzerosSuffice b op next x y ∨ x.CanDensify ∧ y.CanDensify) (x.outer y)
      (fun r s => applied b op ((x.at? r s).getD (.const i Scalar.zero))
        ((y.at? r s).getD (.const j Scalar.zero)))
      ((elementwise b c x y).run next).1 := by
  cases hxs : x.pattern.isDenseScalar <;> cases hys : y.pattern.isDenseScalar
  · exact answers_elementwise_same hzero hop hc hx hy hxn hyn hi hj (hxs.trans hys.symm) hmatch
  · exact answers_elementwise_right hzero hop hc hx hy hyn hi hxs hys
  · exact answers_elementwise_left hzero hop hc hx hy hxn hj hxs hys
  · exact answers_elementwise_same hzero hop hc hx hy hxn hyn hi hj (hxs.trans hys.symm) hmatch

end Cases

theorem elementwise_of_mismatched (hc : c.op? = some (.binary op)) (h : x.Mismatched y) :
    ∃ cause, ((elementwise b c x y).run next).1 = .error (.inconsistent cause) := by
  obtain ⟨hxs, hys, hsize⟩ := h
  rw [Bool.not_eq_true] at hxs hys
  rw [elementwise_same hc (hxs.trans hys.symm), zip, if_neg hsize]
  exact ⟨_, rfl⟩

theorem map_eq {u : Unary} (hc : c.op? = some (.unary u)) :
    map b c x = x.spread (Scalar.keepsZero₁ K u) (b.unary u) := by
  unfold map
  rw [hc]
  rfl

theorem Sound.answers_map (hx : x.Sound) {u : Unary} (hc : c.op? = some (.unary u)) (i : Nat) :
    Answers (Scalar.keepsZero₁ K u ∨ x.CanDensify) x.pattern
      (fun r s => (b.settle (.unary u ((x.get? r s).getD (.const i Scalar.zero)))).expr)
      ((map b c x).run next).1 := by
  have hconst : ∀ j, b.settle (.unary u (.const j (Scalar.zero : K))) =
      .const (Scalar.unary u Scalar.zero) := fun j => Builder.settle_of_fold? rfl
  rw [map_eq hc]
  refine hx.answers_spread (fun n next => b.expr_make (.unary u n) next) (Nat.zero_le next)
    (Nat.zero_le i) (fun j k _ _ => ?_) fun hkeeps => ?_
  · rw [hconst, hconst]
  · rw [hconst]
    exact hkeeps

end Elementwise

/-- How an operation on matrices ends: inconsistently if they do not go together, with a fault if
there is no room, and otherwise with a matrix of the given size. At every place the matrix has the
expression that `f` builds there, or nothing, if `f` builds a zero. -/
structure Placewise (mismatch room : Prop) (shape : Pattern)
    (f : Int64 → Int64 → Building (Node K)) (result : Result (SparseMatrix K)) : Prop where
  inconsistent : mismatch → ∃ cause, result = .inconsistent cause
  fault : ¬mismatch → ¬room → result = .fault .outOfRange
  ok : ¬mismatch → room → ∃ z, result = .ok z ∧ z.Sound ∧ z.pattern.nrow = shape.nrow ∧
    z.pattern.ncol = shape.ncol ∧
    ∀ r c, Cell.inRange shape.nrow shape.ncol { row := r, col := c } → ∀ next, ∃ a next',
      (f r c).run next = (.ok a, next') ∧ (∀ e, z.get? r c = some e → e.expr = a.expr) ∧
        (z.get? r c = none → a.isZero)

theorem placewise_of_answers {mismatch room : Prop} {shape : Pattern} {b : Builder}
    {f : Int64 → Int64 → Building (Node K)} {form : Int64 → Int64 → Form K}
    {result : Result (SparseMatrix K)}
    (hf : ∀ r c next, (f r c).run next =
      (.ok (b.make (form r c) next).1, (b.make (form r c) next).2))
    (hmis : mismatch → ∃ cause, result = .inconsistent cause)
    (h : ¬mismatch → Answers room shape (fun r c => (b.settle (form r c)).expr) result) :
    Placewise mismatch room shape f result := by
  refine ⟨hmis, fun hmatch => (h hmatch).fault, fun hmatch hroom => ?_⟩
  obtain ⟨z, hz, hrep⟩ := (h hmatch).ok hroom
  refine ⟨z, hz, hrep.sound, hrep.nrow, hrep.ncol, fun r c hrc next => ⟨_, _, hf r c next, ?_, ?_⟩⟩
  · intro e he
    rw [b.expr_make]
    rcases hrep.place r c hrc with hplace | ⟨hnone, -⟩
    · rw [he] at hplace
      exact Option.some.inj hplace
    · rw [he] at hnone
      cases hnone
  · intro hnone
    rw [← Node.isZero_expr, b.expr_make]
    rcases hrep.place r c hrc with hplace | ⟨-, hzero⟩
    · rw [hnone] at hplace
      cases hplace
    · exact hzero

/-- Operations on sparse matrices are operations place by place. A binary operation is inconsistent
exactly if neither matrix is a dense scalar and their sizes differ. Otherwise it gives a matrix,
unless structural zeros have to be filled in for which there is no room. At every place the matrix
has the expression that the operation gives for the two entries there, where a dense scalar has its
node at every place and a constant zero stands for what is not there. Where the matrix itself has
no entry, the operation gives zero. The same holds for a unary operation on one matrix. -/
theorem elementwise_placewise (b : Builder) {x y : SparseMatrix Float} (hx : x.Sound)
    (hy : y.Sound) (next : Nat) (hxn : ∀ n ∈ x.nonzeros, n.id < next)
    (hyn : ∀ n ∈ y.nonzeros, n.id < next) {i j : Nat} (hi : next ≤ i) (hj : next ≤ j) :
    (∀ c op, Opcode.op? c = some (.binary op) → op ≠ .printme →
      Placewise (x.Mismatched y) (NonzerosSuffice b op next x y ∨ x.CanDensify ∧ y.CanDensify)
        (x.outer y)
        (fun r s => b.apply c [(x.at? r s).getD (.const i Scalar.zero),
          (y.at? r s).getD (.const j Scalar.zero)])
        ((elementwise b c x y).run next).1) ∧
    ∀ c u, Opcode.op? c = some (.unary u) →
      Placewise False (Scalar.keepsZero₁ Float u ∨ x.CanDensify) x.pattern
        (fun r s => b.apply c [(x.get? r s).getD (.const i Scalar.zero)])
        ((map b c x).run next).1 := by
  have hzero : Scalar.isZero (Scalar.zero : Float) := Numeric.isZero_of_unpack (s := .positive) rfl
  refine ⟨fun c op hc hop => ?_, fun c u hc => ?_⟩
  · refine placewise_of_answers (fun r s next => ?_) (elementwise_of_mismatched hc)
      (answers_elementwise hzero hop hc hx hy hxn hyn hi hj)
    rw [Builder.apply, hc]
    rfl
  · refine placewise_of_answers (fun r s next => ?_) False.elim fun _ => hx.answers_map hc i
    rw [Builder.apply, hc]
    rfl

/-! ## A diagonal and a scalar -/

namespace Shifted

def x : Node Float := .symbol 1 "x"
def y : Node Float := .symbol 2 "y"
def s : Node Float := .symbol 3 "s"

/-- A diagonal matrix of two rows. -/
def diagonal : SparseMatrix Float where
  sp := { key := 4, pattern := ⟨2, 2, [0, 1, 2], [0, 1]⟩ }
  nonzeros := [x, y]

theorem sound_diagonal : diagonal.Sound :=
  ⟨by decide, by decide, rfl⟩

theorem sound_scalar : (scalar s).Sound :=
  ⟨by decide, by decide, rfl⟩

end Shifted

/-- A scalar is added to the structural zeros of a diagonal matrix as well. -/
theorem elementwise_shifted :
    Shifted.diagonal.Sound ∧ (scalar Shifted.s).Sound ∧
      Shifted.diagonal.get? 0 1 = none ∧
      ∃ z e, ((elementwise {} (Opcode.ofOp (.binary .add)) Shifted.diagonal
          (scalar Shifted.s)).run 5).1 = .ok z ∧
        z.get? 0 1 = some e ∧ e.expr = .symbol 3 := by
  have hroom : Shifted.diagonal.CanDensify ∧ (scalar Shifted.s).CanDensify :=
    ⟨.inr ⟨by decide, by decide⟩, .inl (by decide)⟩
  have hmatch : ¬Shifted.diagonal.Mismatched (scalar Shifted.s) := fun h => h.2.1 (by decide)
  have hlaw := (elementwise_placewise {} Shifted.sound_diagonal Shifted.sound_scalar 5 (by decide)
    (by decide) (i := 5) (j := 6) (by decide) (by decide)).1 (Opcode.ofOp (.binary .add)) .add rfl
    (by decide)
  obtain ⟨z, hz, -, -, -, hplace⟩ := hlaw.ok hmatch (.inr hroom)
  obtain ⟨a, next', hrun, hsome, hnone⟩ := hplace 0 1 (by decide) 7
  have hadd : ({} : Builder).settle (.binary .add (.const 5 Scalar.zero) Shifted.s) =
      .node Shifted.s := by
    rw [Builder.settle_of_step (g := .node Shifted.s) (by rfl), Builder.settle_of_step_eq_none rfl]
  have hmake : (({} : Builder).make (.binary .add (.const 5 Scalar.zero) Shifted.s) 7) =
      (Shifted.s, 7) := by
    rw [Builder.make, hadd]
    rfl
  obtain rfl : Shifted.s = a := (congrArg Prod.fst hmake).symm.trans
    (Except.ok.inj (congrArg Prod.fst hrun))
  refine ⟨Shifted.sound_diagonal, Shifted.sound_scalar, by decide, z, ?_⟩
  cases he : z.get? 0 1 with
  | none => exact absurd (hnone he) (by decide)
  | some e => exact ⟨e, hz, rfl, hsome e he⟩

/-- A matrix of more places than can be stored, none of which is a nonzero. -/
def tall : SparseMatrix Float where
  sp := { key := 1, pattern := ⟨4611686018427387904, 1, [0, 0], []⟩ }
  nonzeros := []

/-- All places of a matrix equal those of the matrix itself, but there is no room to say so. -/
theorem elementwise_without_room :
    tall.Sound ∧ ¬tall.Mismatched tall ∧
      ((elementwise {} (Opcode.ofOp (.binary .eq)) tall tall).run 2).1 =
        .error (.fault .outOfRange) := by
  refine ⟨⟨by decide, by decide, rfl⟩, fun h => h.2.2 (by decide), by rfl⟩

end Tangent.SparseMatrix
