import Mathlib
import Tangent.Node.Rebuild
import Tangent.Proofs.Always
import Tangent.Proofs.Freeze
import Tangent.Proofs.NormalForm
import Tangent.Proofs.Seeding
import Tangent.Proofs.Slopes

/-!
# No symbol comes out of nothing

Whatever a builder makes is made of constants and of what it was given. So the symbols of a result
(`Node.symbols`) are among those of the operands, and as nothing else is used about the operands,
this holds of any nodes and any supply of numbers.

An expression over a set of symbols (`Node.Over`) has operands over the set, and an operation on
such operands is over the set again. The rules of the simplifier use operands of operands only, so
what a builder makes of them is over the set (`Builder.always_make`); the derivative rules are
programs of such operations (`Builder.always_slopes`), and the sweeps combine what these give
(`Builder.always_forwardSweep`, `Builder.always_backwardSweep`).
-/

set_option linter.unusedSectionVars false

namespace Tangent

variable {K : Type}

/-! ## Symbols -/

namespace Node

/-- The symbols that an expression is made of. -/
def symbols (n : Node K) : Set (Node K) :=
  {s | s.isSymbol ∧ n.Reaches s}

/-- The symbols of some expressions. -/
def symbolsOf (ns : List (Node K)) : Set (Node K) :=
  {s | ∃ n ∈ ns, s ∈ n.symbols}

/-- The expression has no symbols but those of the set. -/
def Over (S : Set (Node K)) (n : Node K) : Prop :=
  n.symbols ⊆ S

variable {S : Set (Node K)} {n : Node K}

theorem over_symbolsOf {ns : List (Node K)} (h : n ∈ ns) : n.Over (symbolsOf ns) :=
  fun _ hs => ⟨n, h, hs⟩

theorem symbolsOf_subset_iff {ns : List (Node K)} : symbolsOf ns ⊆ S ↔ ∀ n ∈ ns, n.Over S := by
  constructor
  · exact fun h n hn _ hs => h ⟨n, hn, hs⟩
  · rintro h s ⟨n, hn, hs⟩
    exact h n hn hs

theorem symbols_subset_of_reaches {m : Node K} (h : n.Reaches m) : m.symbols ⊆ n.symbols :=
  fun _ hs => ⟨hs.1, Relation.ReflTransGen.trans h hs.2⟩

theorem over_iff : n.Over S ↔ (n.isSymbol → n ∈ S) ∧ ∀ x ∈ n.operands, x.Over S := by
  constructor
  · intro h
    exact ⟨fun hn => h ⟨hn, .refl n⟩, fun x hx =>
      (symbols_subset_of_reaches (.head hx (.refl x))).trans h⟩
  · rintro ⟨hn, hops⟩ s ⟨hs, hr⟩
    rcases reaches_iff.1 hr with rfl | ⟨x, hx, hr⟩
    · exact hn hs
    · exact hops x hx ⟨hs, hr⟩

theorem Over.operand (h : n.Over S) {x : Node K} (hx : x ∈ n.operands) : x.Over S :=
  (over_iff.1 h).2 x hx

theorem over_const (id : Nat) (v : K) : (const id v).Over S := by
  simp [over_iff (n := const id v), isSymbol, name?, operands]

theorem over_unary {id : Nat} {u : Unary} {x : Node K} : (unary id u x).Over S ↔ x.Over S := by
  simp [over_iff (n := unary id u x), isSymbol, name?, operands]

theorem over_binary {id : Nat} {op : Binary} {x y : Node K} :
    (binary id op x y).Over S ↔ x.Over S ∧ y.Over S := by
  simp [over_iff (n := binary id op x y), isSymbol, name?, operands]

theorem over_getD {ns : List (Node K)} (h : ∀ n ∈ ns, n.Over S) {e : Node K} (he : e.Over S)
    (i : Nat) : (ns.getD i e).Over S := by
  rw [List.getD_eq_getElem?_getD]
  cases hi : ns[i]? with
  | none => exact he
  | some n => exact h n (List.mem_of_getElem? hi)

end Node

namespace Builder

variable [Scalar K] {b : Builder} {S : Set (Node K)}

/-! ## Making and rebuilding -/

theorem always_newConst (v : K) : (Node.newConst v).Always (Node.Over S) :=
  fun next => Node.over_const next v

theorem always_make {f : Form K} (hf : ∀ x ∈ f.operands, x.Over S) :
    (b.make f).Always (Node.Over S) := by
  have hops := (operands_settle (b := b) (P := Node.Over S) (fun _ hn _ hx => hn.operand hx) hf).1
  unfold make
  cases hsettle : b.settle f with
  | node n =>
    rw [hsettle] at hops
    exact .pure (hops n (by simp [Form.operands]))
  | const v => exact always_newConst v
  | unary u x =>
    rw [hsettle] at hops
    exact fun next => Node.over_unary.2 (hops x (by simp [Form.operands]))
  | binary op x y =>
    rw [hsettle] at hops
    exact fun next => Node.over_binary.2 (Form.forall_operands_binary.1 hops)

theorem always_unary (u : Unary) {x : Node K} (hx : x.Over S) :
    (b.unary u x).Always (Node.Over S) :=
  always_make (by simpa [Form.operands] using hx)

theorem always_binary (op : Binary) {x y : Node K} (hx : x.Over S) (hy : y.Over S) :
    (b.binary op x y).Always (Node.Over S) :=
  always_make (Form.forall_operands_binary.2 ⟨hx, hy⟩)

theorem always_apply (c : Opcode) {operands : List (Node K)} (h : ∀ x ∈ operands, x.Over S) :
    (b.apply c operands).Always (Node.Over S) := by
  unfold apply
  split
  · split
    · exact .lift (always_unary _ (h _ (by simp)))
    · exact Building.always_throw _
  · split
    · exact .lift (always_binary _ (h _ (by simp)) (h _ (by simp)))
    · exact Building.always_throw _
  · exact Building.always_throw _

/-- Everything that was rebuilt is over the set. -/
def RebuiltOver (S : Set (Node K)) (done : Rebuilt K) : Prop :=
  ∀ (id : Nat) (r : Node K), done[id]? = some r → r.Over S

theorem always_remember {done : Rebuilt K} (hdone : RebuiltOver S done) (id : Nat) {f : Form K}
    (hf : ∀ x ∈ f.operands, x.Over S) :
    Build.Always (do let r ← b.make f; return (r, done.insert id r)) fun s =>
      s.1.Over S ∧ RebuiltOver S s.2 := by
  refine (always_make hf).bind fun r hr => .pure ⟨hr, fun id' r' hr' => ?_⟩
  rw [Std.HashMap.getElem?_insert] at hr'
  split at hr'
  · cases hr'
    exact hr
  · exact hdone id' r' hr'

theorem always_rebuild (n : Node K) : ∀ {done : Rebuilt K}, n.Over S → RebuiltOver S done →
    Build.Always (b.rebuild n done) fun s => s.1.Over S ∧ RebuiltOver S s.2 := by
  induction n with
  | const id v => exact fun hn hdone => .pure ⟨hn, hdone⟩
  | symbol id name => exact fun hn hdone => .pure ⟨hn, hdone⟩
  | unary id u x ih =>
    intro done hn hdone
    rw [rebuild_unary]
    cases hd : done[id]? with
    | some r => exact .pure ⟨hdone id r hd, hdone⟩
    | none =>
      refine (ih (Node.over_unary.1 hn) hdone).bind fun s hs => ?_
      exact always_remember hs.2 id (by simpa [Form.operands] using hs.1)
  | binary id op x y ihx ihy =>
    intro done hn hdone
    rw [rebuild_binary]
    cases hd : done[id]? with
    | some r => exact .pure ⟨hdone id r hd, hdone⟩
    | none =>
      refine (ihx (Node.over_binary.1 hn).1 hdone).bind fun s hs => ?_
      refine (ihy (Node.over_binary.1 hn).2 hs.2).bind fun s' hs' => ?_
      exact always_remember hs'.2 id (Form.forall_operands_binary.2 ⟨hs.1, hs'.1⟩)

theorem always_rebuildAll : ∀ (nodes : List (Node K)) {done : Rebuilt K},
    (∀ n ∈ nodes, n.Over S) → RebuiltOver S done →
      Build.Always (nodes.mapM b.rebuild done) fun s => ∀ n ∈ s.1, n.Over S
  | [], done, _, _ => by
    rw [List.mapM_nil]
    exact .pure (by simp)
  | n :: nodes, done, hn, hdone => by
    rw [mapM_rebuild_cons]
    refine (always_rebuild n (hn n List.mem_cons_self) hdone).bind fun s hs => ?_
    refine (always_rebuildAll nodes (fun m hm => hn m (List.mem_cons_of_mem _ hm)) hs.2).bind
      fun s' hs' => ?_
    exact .pure (List.forall_mem_cons.2 ⟨hs.1, hs'⟩)

theorem always_simplify {nodes : List (Node K)} (h : ∀ n ∈ nodes, n.Over S) :
    (b.simplify nodes).Always fun out => ∀ n ∈ out, n.Over S := by
  rw [simplify_eq]
  exact (always_rebuildAll nodes h fun id r hr => by simp at hr).bind fun s hs => .pure hs

/-! ## Derivative rules -/

theorem always_run {w : List (Node K)} (hw : ∀ n ∈ w, n.Over S) {e : Node K} (he : e.Over S)
    (op : SlopeOp) : (op.run (b.algebra K) e w).Always (Node.Over S) := by
  cases op with
  | literal l => exact always_newConst _
  | unary u i => exact always_unary u (Node.over_getD hw he i)
  | binary op i j => exact always_binary op (Node.over_getD hw he i) (Node.over_getD hw he j)

theorem always_runAll {e : Node K} (he : e.Over S) :
    ∀ (ops : List SlopeOp) {w : List (Node K)}, (∀ n ∈ w, n.Over S) →
      (SlopeOp.runAll (b.algebra K) e ops w).Always fun w' => ∀ n ∈ w', n.Over S
  | [], w, hw => .pure hw
  | op :: ops, w, hw => by
    refine (always_run hw he op).bind fun n hn => always_runAll he ops ?_
    exact List.forall_mem_append.2 ⟨hw, List.forall_mem_singleton.2 hn⟩

theorem always_slope (u : Unary) {x f : Node K} (hx : x.Over S) (hf : f.Over S) :
    (u.slope (b.algebra K) x f).Always (Node.Over S) := by
  rw [Unary.slope_eq]
  exact (always_runAll hx u.record.2 (w := [x, x, f]) (by simp [hx, hf])).bind fun w hw =>
    .pure (Node.over_getD hw hx _)

theorem always_slopes (op : Binary) {x y f : Node K} (hx : x.Over S) (hy : y.Over S)
    (hf : f.Over S) :
    (op.slopes (b.algebra K) x y f).Always fun d => d.1.Over S ∧ d.2.Over S := by
  rw [Binary.slopes_eq]
  exact (always_runAll hx op.record.2 (w := [x, y, f]) (by simp [hx, hy, hf])).bind fun w hw =>
    .pure ⟨Node.over_getD hw hx _, Node.over_getD hw hx _⟩

/-! ## Forward -/

variable {t : Tape K} {seeds : List (List (SparseMatrix K))} {zero : Node K}

/-- All nonzeros in all directions are over the set. -/
def SeedsOver (S : Set (Node K)) (seeds : List (List (SparseMatrix K))) : Prop :=
  ∀ seed ∈ seeds, ∀ n ∈ Tape.nonzerosOf seed, n.Over S

theorem seedsOver_iff : SeedsOver S seeds ↔ Node.symbolsOf (seeds.flatMap Tape.nonzerosOf) ⊆ S := by
  rw [Node.symbolsOf_subset_iff]
  constructor
  · intro h n hn
    obtain ⟨seed, hseed, hn⟩ := List.mem_flatMap.1 hn
    exact h seed hseed n hn
  · exact fun h seed hseed n hn => h n (List.mem_flatMap.2 ⟨seed, hseed, hn⟩)

theorem over_of_subset (h : SeedsOver S seeds) {matrices : List (SparseMatrix K)}
    (hsub : matrices ⊆ seeds.flatten) : ∀ n ∈ Tape.nonzerosOf matrices, n.Over S := by
  intro n hn
  obtain ⟨m, hm, hn⟩ := List.mem_flatMap.1 hn
  obtain ⟨seed, hseed, hm⟩ := List.mem_flatten.1 (hsub hm)
  exact h seed hseed n (List.mem_flatMap.2 ⟨m, hm, hn⟩)

/-- All tangents are over the set. -/
def RowsOver (S : Set (Node K)) (w : Array (List (Node K))) : Prop :=
  ∀ row ∈ w, ∀ n ∈ row, n.Over S

theorem RowsOver.getD {w : Array (List (Node K))} (hw : RowsOver S w) (i : Nat) :
    ∀ n ∈ w.getD i [], n.Over S := by
  rw [Array.getD_eq_getD_getElem?]
  cases hi : w[i]? with
  | none => simp
  | some row => exact hw row (Array.mem_of_getElem? hi)

theorem over_seedRows (hseeds : SeedsOver S seeds) (hzero : zero.Over S) (count : Nat) :
    ∀ row ∈ Tape.seedRows count zero seeds, ∀ n ∈ row, n.Over S := by
  intro row hrow n hn
  simp only [Tape.seedRows, List.mem_map] at hrow
  obtain ⟨p, -, rfl⟩ := hrow
  simp only [List.mem_map, exists_exists_and_eq_and] at hn
  obtain ⟨seed, hseed, rfl⟩ := hn
  exact Node.over_getD (hseeds seed hseed) hzero p

theorem always_tangents {w : Array (List (Node K))} (hw : RowsOver S w) (hzero : zero.Over S)
    (directions : Nat) {n : Node K} (hn : n.Over S) :
    (b.tangents t directions zero w n).Always fun row => ∀ m ∈ row, m.Over S := by
  unfold tangents
  cases n with
  | const id v => exact .pure fun m hm => List.eq_of_mem_replicate hm ▸ hzero
  | symbol id name => exact .pure fun m hm => List.eq_of_mem_replicate hm ▸ hzero
  | unary id u x =>
    refine (always_slope u (Node.over_unary.1 hn) hn).bind fun dx hdx => ?_
    exact .mapM fun tx htx => always_binary .mul hdx (hw.getD _ tx htx)
  | binary id op x y =>
    obtain ⟨hx, hy⟩ := Node.over_binary.1 hn
    refine (always_slopes op hx hy hn).bind fun d hd => .mapM fun pair hpair => ?_
    obtain ⟨htx, hty⟩ := List.of_mem_zip hpair
    refine (always_binary .mul hd.1 (hw.getD _ _ htx)).bind fun left hleft => ?_
    refine (always_binary .mul hd.2 (hw.getD _ _ hty)).bind fun right hright => ?_
    exact always_binary .add hleft hright

theorem always_forwardSweep (hnodes : ∀ n ∈ t.nodes, n.Over S) (hseeds : SeedsOver S seeds)
    (hzero : zero.Over S) :
    (b.forwardSweep t zero seeds).Always (RowsOver S) := by
  unfold forwardSweep
  refine .foldlM (fun n hn w hw => ?_) fun row hrow =>
    over_seedRows hseeds hzero _ row (by simpa using hrow)
  refine (always_tangents hw hzero _ (hnodes n (List.mem_of_mem_drop hn))).bind fun row hrow => ?_
  refine .pure fun row' hrow' => ?_
  rcases Array.mem_push.1 hrow' with hrow' | rfl
  · exact hw row' hrow'
  · exact hrow

theorem seedsOver_sensitivities {matrices : List (SparseMatrix K)} {directions : Nat}
    {entry : Nat → Node K → Node K} (h : ∀ d n, (entry d n).Over S) :
    SeedsOver S (Tape.sensitivities matrices directions entry) := by
  intro sen hsen n hn
  obtain ⟨d, hd⟩ := List.getElem?_of_mem hsen
  obtain ⟨-, rfl⟩ := Tape.getElem?_sensitivities hd
  rw [Tape.nonzerosOf_map] at hn
  obtain ⟨m, -, rfl⟩ := List.mem_map.1 hn
  exact h d m

theorem always_pushForward (hnodes : ∀ n ∈ t.nodes, n.Over S) (hseeds : SeedsOver S seeds) :
    (b.pushForward t seeds).Always (SeedsOver S) := by
  refine (always_newConst (S := S) _).bind fun zero hzero => ?_
  refine (always_forwardSweep hnodes hseeds hzero).bind fun w hw => .pure ?_
  exact seedsOver_sensitivities fun d n => Node.over_getD (hw.getD _) hzero d

/-! ## Backward -/

/-- All adjoints are over the set. -/
def AdjointsOver (S : Set (Node K)) (row : Adjoints K) : Prop :=
  ∀ n, some n ∈ row → n.Over S

theorem adjointsOver_getD {w : Array (Adjoints K)} (hw : ∀ row ∈ w, AdjointsOver S row) (i : Nat) :
    AdjointsOver S (w.getD i []) := by
  rw [Array.getD_eq_getD_getElem?]
  cases hi : w[i]? with
  | none => intro n hn; cases hn
  | some row => exact hw row (Array.mem_of_getElem? hi)

theorem always_accumulate {a v : Option (Node K)} (ha : ∀ n, a = some n → n.Over S)
    (hv : ∀ n, v = some n → n.Over S) :
    (b.accumulate a v).Always fun r => ∀ n, r = some n → n.Over S := by
  unfold accumulate
  split
  · exact .pure ha
  · refine .pure fun n hn => hv n ?_
    split_ifs at hn
    exact hn
  · split_ifs
    · exact .pure ha
    · refine (always_binary .add (ha _ rfl) (hv _ rfl)).bind fun r hr => .pure ?_
      rintro n ⟨⟩
      exact hr

theorem always_accumulateAt {w : Array (Adjoints K)} (hw : ∀ row ∈ w, AdjointsOver S row) (i : Nat)
    {row : Adjoints K} (hrow : AdjointsOver S row) :
    (b.accumulateAt w i row).Always fun w' => ∀ row ∈ w', AdjointsOver S row := by
  unfold accumulateAt
  refine (Build.Always.mapM (Q := fun r => ∀ n, r = some n → n.Over S) fun pair hpair => ?_).bind
    fun sum hsum => .pure fun row' hrow' => ?_
  · obtain ⟨ha, hv⟩ := List.of_mem_zip hpair
    exact always_accumulate (fun n hn => adjointsOver_getD hw i n (hn ▸ ha))
      fun n hn => hrow n (hn ▸ hv)
  · rcases Array.mem_or_eq_of_mem_setIfInBounds hrow' with hrow' | rfl
    · exact hw row' hrow'
    · exact fun n hn => hsum _ hn n rfl

theorem always_passRow {w : Array (Adjoints K)} (hw : ∀ row ∈ w, AdjointsOver S row) (i : Nat)
    {dx : Node K} (hdx : dx.Over S) {row : Adjoints K} (hrow : AdjointsOver S row) :
    (b.passRow w i dx row).Always fun w' => ∀ row ∈ w', AdjointsOver S row := by
  refine (Build.Always.mapM (Q := fun r => ∀ n, r = some n → n.Over S) fun a ha => ?_).bind
    fun scaled hscaled => always_accumulateAt hw i fun n hn => hscaled _ hn n rfl
  cases a with
  | none => exact .pure (by simp)
  | some a =>
    refine (always_binary .mul hdx (hrow a ha)).bind fun r hr => .pure ?_
    rintro n ⟨⟩
    exact hr

theorem always_passBack {w : Array (Adjoints K)} (hw : ∀ row ∈ w, AdjointsOver S row) (i : Nat)
    {n : Node K} (hn : n.Over S) :
    (b.passBack t n i w).Always fun w' => ∀ row ∈ w', AdjointsOver S row := by
  have hrow := adjointsOver_getD hw i
  cases n with
  | const id v => rw [passBack_leaf rfl]; exact .pure hw
  | symbol id name => rw [passBack_leaf rfl]; exact .pure hw
  | unary id u x =>
    rw [passBack_unary]
    split_ifs
    · exact .pure hw
    · refine (always_slope u (Node.over_unary.1 hn) hn).bind fun dx hdx => ?_
      exact always_passRow hw _ hdx hrow
  | binary id op x y =>
    obtain ⟨hx, hy⟩ := Node.over_binary.1 hn
    rw [passBack_binary]
    split_ifs
    · exact .pure hw
    · refine (always_slopes op hx hy hn).bind fun d hd => ?_
      refine (always_passRow hw _ hd.1 hrow).bind fun w' hw' => ?_
      exact always_passRow hw' _ hd.2 hrow

theorem always_backwardSweep (hnodes : ∀ n ∈ t.nodes, n.Over S) (hseeds : SeedsOver S seeds)
    (hzero : zero.Over S) :
    (b.backwardSweep t zero seeds).Always fun w => ∀ row ∈ w, AdjointsOver S row := by
  have hstart : (b.backwardStart t zero seeds).Always fun w => ∀ row ∈ w, AdjointsOver S row := by
    refine .foldlM (fun start hmem w hw => ?_) fun row hrow n hn => ?_
    · refine always_accumulateAt hw _ fun n hn => ?_
      obtain ⟨m, hm, ⟨⟩⟩ := List.mem_map.1 hn
      exact over_seedRows hseeds hzero _ _ (List.of_mem_zip hmem).2 _ hm
    · rw [(Array.mem_replicate.1 hrow).2] at hn
      cases List.eq_of_mem_replicate hn
  refine hstart.bind fun w hw => .foldlM (fun step hmem w hw => ?_) hw
  have hmem := (List.mem_reverse.1 hmem)
  exact always_passBack hw _ (hnodes _ (List.mem_of_getElem? (List.mem_zipIdx_iff_getElem?.1 hmem)))

theorem always_pullBack (hnodes : ∀ n ∈ t.nodes, n.Over S) (hseeds : SeedsOver S seeds) :
    (b.pullBack t seeds).Always (SeedsOver S) := by
  refine (always_newConst (S := S) _).bind fun zero hzero => ?_
  refine (always_backwardSweep hnodes hseeds hzero).bind fun w hw => .pure ?_
  refine seedsOver_sensitivities fun d n => ?_
  rw [List.getD_eq_getElem?_getD]
  cases hd : (w.getD (t.position n) [])[d]? with
  | none => exact hzero
  | some a =>
    cases a with
    | none => exact hzero
    | some m => exact adjointsOver_getD hw _ m (List.mem_of_getElem? hd)

/-! ## Derivatives -/

theorem always_differentiate (hnodes : ∀ n ∈ t.nodes, n.Over S) (hseeds : SeedsOver S seeds)
    (side : Side) : (b.differentiate t side seeds).Always (SeedsOver S) := by
  cases side with
  | input =>
    exact (Building.always_liftM _).bind fun _ _ =>
      .of_run (fun _ => rfl) (always_pushForward hnodes hseeds)
  | output =>
    exact (Building.always_liftM _).bind fun _ _ =>
      .of_run (fun _ => rfl) (always_pullBack hnodes hseeds)

/-- The symbols of derivatives are those of the tape and of the seeds. -/
theorem symbolsOf_differentiate (b : Builder) (t : Tape K) (side : Side)
    (seeds : List (List (SparseMatrix K))) :
    (b.differentiate t side seeds).Always fun sens =>
      Node.symbolsOf (sens.flatMap Tape.nonzerosOf) ⊆
        Node.symbolsOf (t.nodes ++ seeds.flatMap Tape.nonzerosOf) := by
  intro next sens next' hrun
  refine seedsOver_iff.1 (always_differentiate (fun n hn => ?_) (fun seed hseed n hn => ?_) side
    hrun)
  · exact Node.over_symbolsOf (List.mem_append_left _ hn)
  · exact Node.over_symbolsOf (List.mem_append_right _ (List.mem_flatMap.2 ⟨seed, hseed, hn⟩))

theorem always_unit (sp : SharedPattern) (k : Nat) :
    (unit sp k).Always fun m : SparseMatrix K => ∀ n ∈ m.nonzeros, n.Over S := by
  unfold unit SparseMatrix.zeros
  rw [bind_assoc]
  refine (always_newConst (S := S) _).bind fun zero hzero => ?_
  rw [pure_bind]
  refine (always_newConst (S := S) _).bind fun one hone => .pure fun n hn => ?_
  rcases List.mem_or_eq_of_mem_set hn with hn | rfl
  · exact List.eq_of_mem_replicate hn ▸ hzero
  · exact hone

theorem always_units (sp : SharedPattern) (count : Nat) :
    ((List.range count).mapM fun k => (do return [← unit (K := K) sp k] : Building _)).Always
      (SeedsOver S) := by
  refine .of_run (Building.run_mapM (g := fun k => return [← unit sp k]) (fun _ _ => rfl) _) ?_
  refine .mapM fun k _ => (always_unit (S := S) sp k).bind fun m hm => .pure ?_
  simpa [Tape.nonzerosOf] using hm

theorem over_entry {sens : List (List (SparseMatrix K))} (h : SeedsOver S sens)
    (hzero : zero.Over S) (d k : Nat) :
    (((sens.getD d []).flatMap (·.nonzeros)).getD k zero).Over S := by
  refine Node.over_getD ?_ hzero k
  rw [List.getD_eq_getElem?_getD]
  cases hd : sens[d]? with
  | none => simp
  | some sen => exact h sen (List.mem_of_getElem? hd)

theorem always_jacobian [Numeral K] {output input : SparseMatrix K}
    (hout : ∀ n ∈ output.nonzeros, n.Over S) (hin : ∀ n ∈ input.nonzeros, n.Over S) :
    (b.jacobian output input).Always fun jac => ∀ n ∈ jac.nonzeros, n.Over S := by
  unfold jacobian
  refine (Building.always_liftM _).bind fun t ht => (Building.always_liftM _).bind
    fun pattern _ => ?_
  obtain ⟨-, hinputs, houtputs, -⟩ := Tape.layOut_ok ht
  have hnodes : ∀ n ∈ t.nodes, n.Over S :=
    (Tape.layout_of_layOut ht).inherits (Node.Over S) (fun _ hm _ hx => hm.operand hx)
      (by simpa [hinputs, Tape.nonzerosOf] using hin)
      (by simpa [houtputs, Tape.nonzerosOf] using hout)
  refine (Building.Always.lift (P := fun _ => True) fun _ => trivial).bind fun sp _ => ?_
  refine (Building.Always.lift (always_newConst (S := S) _)).bind fun zero hzero => ?_
  have hentries {sens : List (List (SparseMatrix K))} (hsens : SeedsOver S sens)
      (d k : Pattern.Entry → Nat) : ∀ n ∈ pattern.entries.map fun e =>
        ((sens.getD (d e) []).flatMap (·.nonzeros)).getD (k e) zero, n.Over S := by
    intro n hn
    obtain ⟨e, -, rfl⟩ := List.mem_map.1 hn
    exact over_entry hsens hzero _ _
  split_ifs
  · refine (always_units (S := S) input.sp input.nnz).bind fun seeds hseeds => ?_
    exact (always_differentiate hnodes hseeds .input).bind fun sens hsens =>
      .pure (hentries hsens _ _)
  · refine (always_units (S := S) output.sp output.nnz).bind fun seeds hseeds => ?_
    exact (always_differentiate hnodes hseeds .output).bind fun sens hsens =>
      .pure (hentries hsens _ _)

end Builder

end Tangent
