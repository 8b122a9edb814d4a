import Std.Data.HashMap.Lemmas
import Tangent.Node.Apply
import Tangent.Node.Rebuild
import Tangent.Proofs.Reals

/-!
# Simplified expressions have their value

An operation that is applied to nodes gives a node with the value of the operation, unless all
operands are constants : then it gives the constant that computing with them gives. Rebuilding a
whole expression asks the builder for one operation after the other (`Builder.requests`), so it
keeps values in every model in which those of the requests that fold are folded exactly
(`Lawful.ensures_rebuild`). `simplifier_sound` puts both together for floating point constants.
-/

set_option linter.unusedSectionVars false

namespace Tangent

variable {S A : Type} [Scalar S]

/-! ## Applying one operation -/

/-- The value of an operation given by its number, if it goes with the operands. -/
def Model.call? (M : Model S A) (c : Opcode) : List A → Option A
  | [x] => match c.op? with
    | some (.unary u) => some (M.unary u x)
    | _ => none
  | [x, y] => match c.op? with
    | some (.binary op) => some (M.binary op x y)
    | _ => none
  | _ => none

/-- The form that applying an operation to nodes asks for. -/
def Form.call? (c : Opcode) : List (Node S) → Option (Form S)
  | [x] => match c.op? with
    | some (.unary u) => some (.unary u x)
    | _ => none
  | [x, y] => match c.op? with
    | some (.binary op) => some (.binary op x y)
    | _ => none
  | _ => none

namespace Form

variable {c : Opcode} {args : List (Node S)} {f : Form S}

theorem call?_cases (h : Form.call? c args = some f) :
    (∃ u x, c.op? = some (.unary u) ∧ args = [x] ∧ f = .unary u x) ∨
      ∃ op x y, c.op? = some (.binary op) ∧ args = [x, y] ∧ f = .binary op x y := by
  unfold call? at h
  split at h
  · split at h
    · next hop =>
      cases h
      exact Or.inl ⟨_, _, hop, rfl, rfl⟩
    · cases h
  · split at h
    · next hop =>
      cases h
      exact Or.inr ⟨_, _, _, hop, rfl, rfl⟩
    · cases h
  · cases h

theorem operands_of_call? (h : Form.call? c args = some f) : f.operands = args := by
  rcases call?_cases h with ⟨u, x, -, rfl, rfl⟩ | ⟨op, x, y, -, rfl, rfl⟩ <;> rfl

/-- An operation and its operands have a value exactly if they make a form. -/
theorem map_formValue_call? (M : Model S A) (env : Nat → A) :
    M.call? c (args.map (M.value env)) = (Form.call? c args).map (M.formValue env) := by
  rcases args with _ | ⟨x, _ | ⟨y, _ | ⟨z, args⟩⟩⟩
  · rfl
  · simp only [List.map_cons, List.map_nil, Model.call?, Form.call?]
    split <;> simp_all [Model.formValue]
  · simp only [List.map_cons, List.map_nil, Model.call?, Form.call?]
    split <;> simp_all [Model.formValue]
  · rfl

/-- What does not have constant operands only, or is printed, is not folded. -/
theorem fold?_of_call? (h : Form.call? c args = some f)
    (hc : (∃ x ∈ args, x.isConst = false) ∨ c.op? = some (.binary .printme)) :
    Builder.fold? f = none := by
  rcases call?_cases h with ⟨u, x, hop, rfl, rfl⟩ | ⟨op, x, y, hop, rfl, rfl⟩
  · rw [Heap.fold?_unary_eq_none]
    simpa [hop, Node.isConst] using hc
  · rw [hop] at hc
    by_cases hp : op = .printme
    · rw [hp]
      rfl
    · rw [Heap.fold?_binary_eq_none hp]
      simpa [hp, Node.isConst] using hc

/-- What has constant operands only, and is not printed, is folded to what numbers give. -/
theorem fold?_of_consts (h : Form.call? c args = some f) {vals : List S}
    (hv : args.map Node.value? = vals.map some) (hp : c.op? ≠ some (.binary .printme)) :
    ∃ v, Builder.fold? f = some v ∧ (Model.self S).call? c vals = some v := by
  rcases call?_cases h with ⟨u, x, hop, rfl, rfl⟩ | ⟨op, x, y, hop, rfl, rfl⟩
  · obtain ⟨v, rfl⟩ := List.length_eq_one_iff.1 (by simpa using (congrArg List.length hv).symm)
    simp only [List.map_cons, List.map_nil, List.cons.injEq, and_true] at hv
    exact ⟨Scalar.unary u v, by simp [Builder.fold?, hv], by simp [Model.call?, hop, Model.self]⟩
  · obtain ⟨v, w, rfl⟩ := List.length_eq_two.1 (by simpa using (congrArg List.length hv).symm)
    simp only [List.map_cons, List.map_nil, List.cons.injEq, and_true] at hv
    rw [hop] at hp
    refine ⟨Scalar.binary op v w, ?_, by simp [Model.call?, hop, Model.self]⟩
    rw [Heap.fold?_binary (by simpa using hp), hv.1, hv.2]
    rfl

end Form

theorem Builder.apply_run (b : Builder) {c : Opcode} {args : List (Node S)} {f : Form S}
    (h : Form.call? c args = some f) (next : Nat) :
    (b.apply c args).run next = (.ok (b.make f next).1, (b.make f next).2) := by
  rcases Form.call?_cases h with ⟨u, x, hop, rfl, rfl⟩ | ⟨op, x, y, hop, rfl, rfl⟩
  · simp only [Builder.apply, hop]
    rfl
  · simp only [Builder.apply, hop]
    rfl

/-! ## What rebuilding asks for -/

namespace Builder

/-- The forms that rebuilding a node asks the builder for, one after the other. -/
def requests (b : Builder) : Node S → Rebuilt S → Nat → List (Form S)
  | .const _ _, _, _ | .symbol _ _, _, _ => []
  | .unary id u x, done, next =>
    match done[id]? with
    | some _ => []
    | none => b.requests x done next ++ [.unary u (b.rebuild x done next).1.1]
  | .binary id op x y, done, next =>
    match done[id]? with
    | some _ => []
    | none =>
      let s := b.rebuild x done next
      b.requests x done next ++ b.requests y s.1.2 s.2 ++
        [.binary op s.1.1 (b.rebuild y s.1.2 s.2).1.1]

/-- The forms that rebuilding several nodes asks for. -/
def requestsAll (b : Builder) : List (Node S) → Rebuilt S → Nat → List (Form S)
  | [], _, _ => []
  | n :: nodes, done, next =>
    let s := b.rebuild n done next
    b.requests n done next ++ b.requestsAll nodes s.1.2 s.2

variable {b : Builder} {done : Rebuilt S} {next : Nat}

theorem rebuild_symbol (b : Builder) (id : Nat) (name : String) (done : Rebuilt S) (next : Nat) :
    b.rebuild (.symbol id name) done next = ((.symbol id name, done), next) :=
  rfl

theorem rebuild_unary {id : Nat} {u : Unary} {x : Node S} :
    b.rebuild (.unary id u x) done =
      match done[id]? with
      | some r => pure (r, done)
      | none => do
        let s ← b.rebuild x done
        let r ← b.unary u s.1
        return (r, s.2.insert id r) := by
  rw [rebuild]
  change (match done[id]? with
    | some r => (pure r : StateT (Rebuilt S) Build (Node S))
    | none => _) done = _
  cases done[id]? <;> rfl

theorem rebuild_binary {id : Nat} {op : Binary} {x y : Node S} :
    b.rebuild (.binary id op x y) done =
      match done[id]? with
      | some r => pure (r, done)
      | none => do
        let s ← b.rebuild x done
        let s' ← b.rebuild y s.2
        let r ← b.binary op s.1 s'.1
        return (r, s'.2.insert id r) := by
  rw [rebuild]
  change (match done[id]? with
    | some r => (pure r : StateT (Rebuilt S) Build (Node S))
    | none => _) done = _
  cases done[id]? <;> rfl

theorem rebuild_unary_run {id : Nat} {u : Unary} {x : Node S} (h : done[id]? = none) :
    b.rebuild (.unary id u x) done next =
      let s := b.rebuild x done next
      let r := b.unary u s.1.1 s.2
      ((r.1, s.1.2.insert id r.1), r.2) := by
  rw [rebuild_unary, h]
  rfl

theorem rebuild_binary_run {id : Nat} {op : Binary} {x y : Node S} (h : done[id]? = none) :
    b.rebuild (.binary id op x y) done next =
      let s := b.rebuild x done next
      let s' := b.rebuild y s.1.2 s.2
      let r := b.binary op s.1.1 s'.1.1 s'.2
      ((r.1, s'.1.2.insert id r.1), r.2) := by
  rw [rebuild_binary, h]
  rfl

end Builder

/-! ## Rebuilding keeps values -/

namespace Model

variable {M : Model S A} {env : Nat → A} {p q : Heap S} {done : Builder.Rebuilt S}

/-- Everything that was rebuilt has the value of what it was rebuilt from. -/
def Remembers (M : Model S A) (env : Nat → A) (p : Heap S) (done : Builder.Rebuilt S) : Prop :=
  ∀ id r, done[id]? = some r → r ∈ p ∧ ∃ n ∈ p, n.id = id ∧ M.value env r = M.value env n

theorem remembers_empty : M.Remembers env p ∅ := by
  intro id r h
  simp at h

theorem Remembers.mono (h : M.Remembers env p done) (hpq : p ≤ q) : M.Remembers env q done := by
  intro id r hr
  obtain ⟨hr, n, hn, hid, hv⟩ := h id r hr
  exact ⟨Heap.mem_of_le hpq hr, n, Heap.mem_of_le hpq hn, hid, hv⟩

theorem Remembers.insert (h : M.Remembers env p done) {n r : Node S} (hn : n ∈ p) (hr : r ∈ p)
    (hv : M.value env r = M.value env n) : M.Remembers env p (done.insert n.id r) := by
  intro id r' hr'
  rw [Std.HashMap.getElem?_insert] at hr'
  split at hr'
  · next he =>
    cases hr'
    exact ⟨hr, n, hn, eq_of_beq he, hv⟩
  · exact h id r' hr'

theorem Remembers.value_eq (h : M.Remembers env p done) {n r : Node S} (hn : n ∈ p)
    (hr : done[n.id]? = some r) : r ∈ p ∧ M.value env r = M.value env n := by
  obtain ⟨hr, m, hm, hid, hv⟩ := h n.id r hr
  rw [p.eq_of_id hm hn hid] at hv
  exact ⟨hr, hv⟩

variable [Scalar.Faithful S]

/-- Making what a node is to be rebuilt to, and remembering it. -/
theorem Lawful.ensures_remember (hM : M.Lawful) (b : Builder) {n : Node S} {f : Form S}
    (hn : n ∈ p) (hf : ∀ x ∈ f.operands, x ∈ p) (hexact : M.ExactOn env f)
    (hvalue : M.formValue env f = M.value env n) (hdone : M.Remembers env p done) :
    p.Ensures (do let r ← b.make f; return (r, done.insert n.id r)) fun q s =>
      (s.1 ∈ q ∧ M.value env s.1 = M.value env n) ∧ M.Remembers env q s.2 := by
  refine (hM.ensures_make env b hf hexact).bind fun q r hpq hr => ?_
  rw [hvalue] at hr
  exact .pure ⟨hr, (hdone.mono hpq).insert (Heap.mem_of_le hpq hn) hr.1 hr.2⟩

/-- Rebuilding a node keeps its value, if what is folded on the way is folded exactly. -/
theorem Lawful.ensures_rebuild (hM : M.Lawful) (b : Builder) (n : Node S) :
    ∀ {p : Heap S} {done : Builder.Rebuilt S}, n ∈ p → M.Remembers env p done →
      (∀ f ∈ b.requests n done p.next, M.ExactOn env f) →
      p.Ensures (b.rebuild n done) fun q s =>
        (s.1 ∈ q ∧ M.value env s.1 = M.value env n) ∧ M.Remembers env q s.2 := by
  induction n with
  | const id v => exact fun hn hdone _ => .pure ⟨⟨hn, rfl⟩, hdone⟩
  | symbol id name => exact fun hn hdone _ => .pure ⟨⟨hn, rfl⟩, hdone⟩
  | unary id u x ih =>
    intro p done hn hdone hexact
    rw [Builder.rebuild_unary]
    cases hd : done[id]? with
    | some r => exact .pure ⟨hdone.value_eq hn hd, hdone⟩
    | none =>
      simp only [Builder.requests, hd] at hexact
      refine (ih (Heap.mem_of_unary hn) hdone fun f hf =>
        hexact f (List.mem_append_left _ hf)).bind_run fun q hpq _ hq => ?_
      obtain ⟨⟨hx, hxv⟩, hdone'⟩ := hq
      exact hM.ensures_remember b (n := .unary id u x) (Heap.mem_of_le hpq hn)
        (by simpa [Form.operands] using hx) (hexact _ (by simp)) (by rw [formValue, value, hxv])
        hdone'
  | binary id op x y ihx ihy =>
    intro p done hn hdone hexact
    rw [Builder.rebuild_binary]
    cases hd : done[id]? with
    | some r => exact .pure ⟨hdone.value_eq hn hd, hdone⟩
    | none =>
      simp only [Builder.requests, hd] at hexact
      refine (ihx (Heap.mem_left hn) hdone fun f hf => hexact f (List.mem_append_left _
        (List.mem_append_left _ hf))).bind_run fun q hpq hq hleft => ?_
      obtain ⟨⟨hx, hxv⟩, hdone'⟩ := hleft
      rw [← hq] at hexact
      refine (ihy (Heap.mem_of_le hpq (Heap.mem_right hn)) hdone' fun f hf => hexact f
        (List.mem_append_left _ (List.mem_append_right _ hf))).bind_run
        fun r hqr _ hright => ?_
      obtain ⟨⟨hy, hyv⟩, hdone''⟩ := hright
      exact hM.ensures_remember b (n := .binary id op x y) (Heap.mem_of_le (le_trans hpq hqr) hn)
        (Form.forall_operands_binary.2 ⟨Heap.mem_of_le hqr hx, hy⟩) (hexact _ (by simp))
        (by rw [formValue, value, hxv, hyv]) hdone''

theorem Lawful.ensures_rebuildAll (hM : M.Lawful) (b : Builder) :
    ∀ (nodes : List (Node S)) {p : Heap S} {done : Builder.Rebuilt S}, (∀ n ∈ nodes, n ∈ p) →
      M.Remembers env p done → (∀ f ∈ b.requestsAll nodes done p.next, M.ExactOn env f) →
      p.Ensures (nodes.mapM b.rebuild done) fun _ s =>
        s.1.map (M.value env) = nodes.map (M.value env)
  | [], p, done, _, _, _ => by
    rw [List.mapM_nil]
    exact .pure rfl
  | n :: nodes, p, done, hn, hdone, hexact => by
    have hrun : (n :: nodes).mapM b.rebuild done = (do
        let s ← b.rebuild n done
        let s' ← nodes.mapM b.rebuild s.2
        return (s.1 :: s'.1, s'.2)) := by
      rw [List.mapM_cons]
      rfl
    rw [hrun]
    simp only [Builder.requestsAll] at hexact
    refine (hM.ensures_rebuild b n (hn n List.mem_cons_self) hdone fun f hf => hexact f
      (List.mem_append_left _ hf)).bind_run fun q hpq hq ⟨⟨_, hv⟩, hdone'⟩ => ?_
    rw [← hq] at hexact
    refine (hM.ensures_rebuildAll b nodes (fun m hm => Heap.mem_of_le hpq
      (hn m (List.mem_cons_of_mem _ hm))) hdone' fun f hf => hexact f
      (List.mem_append_right _ hf)).bind fun r s _ hs => ?_
    exact .pure (by rw [List.map_cons, List.map_cons, hv, hs])

end Model

/-- The simplifier is sound. In a model in which the identities behind its rules hold, an operation
applied to nodes has the value of the operation on their values, unless all operands are constants;
in that case it is the constant that computing with the constants gives. Simplifying whole
expressions keeps their values, if the constants that are folded on the way are folded exactly. -/
theorem simplifier_sound {M : Model Float A} (hM : M.Lawful) (env : Nat → A) (b : Builder)
    {next : Nat} {nodes : List (Node Float)} (hnodes : Built next nodes) :
    (∀ (c : Opcode) (args : List (Node Float)) (a : A), (∀ x ∈ args, x ∈ nodes) →
      M.call? c (args.map (M.value env)) = some a →
      ∃ n next', (b.apply c args).run next = (.ok n, next') ∧
        ((∃ x ∈ args, x.isConst = false) ∨ c.op? = some (.binary .printme) →
          M.value env n = a) ∧
        ∀ vals, args.map Node.value? = vals.map some → c.op? ≠ some (.binary .printme) →
          n.value? = (Model.self Float).call? c vals) ∧
      ∀ roots : List (Node Float), (∀ n ∈ roots, n ∈ nodes) →
        (∀ f ∈ b.requestsAll roots ∅ next, M.ExactOn env f) →
        (b.simplify roots next).1.map (M.value env) = roots.map (M.value env) := by
  obtain ⟨p, rfl, hp⟩ := hnodes.exists_heap
  constructor
  · intro c args a hargs ha
    rw [Form.map_formValue_call?] at ha
    obtain ⟨f, hf, rfl⟩ := Option.map_eq_some_iff.1 ha
    have hops : ∀ x ∈ f.operands, x ∈ p := by
      rw [Form.operands_of_call? hf]
      exact fun x hx => hp x (hargs x hx)
    refine ⟨_, _, b.apply_run hf p.next, fun hc => ?_, fun vals hv hc => ?_⟩
    · have hfold := Form.fold?_of_call? hf hc
      obtain ⟨q, -, -, -, hv⟩ := hM.ensures_make env b hops (by simp [Model.ExactOn, hfold])
      exact hv
    · obtain ⟨v, hfold, happly⟩ := Form.fold?_of_consts hf hv hc
      obtain ⟨q, -, -, -, hvalue⟩ := Heap.ensures_make_of_fold? (p := p) b hfold
      rw [happly]
      exact hvalue
  · intro roots hroots hexact
    obtain ⟨q, -, -, hv⟩ := hM.ensures_rebuildAll b roots (fun n hn => hp n (hroots n hn))
      Model.remembers_empty hexact
    exact hv

/-- Two copies of a product and their difference, as a builder leaves them that does not look at
operands. -/
def twoProducts : List (Node Float) :=
  let x : Node Float := .symbol 1 "x"
  let y : Node Float := .symbol 2 "y"
  let p : Node Float := .binary 3 .mul x y
  let q : Node Float := .binary 4 .mul x y
  [.binary 5 .sub p q, q, p, y, x]

theorem built_twoProducts : Built 6 twoProducts := by
  have hleaves : Built 3 (twoProducts.drop 3) := ((Built.start 1).symbol "x").symbol "y"
  have hp : Built 4 (twoProducts.drop 2) := hleaves.binary_of_step (b := ⟨0⟩)
    (by simp [twoProducts]) (by simp [twoProducts]) (by rfl)
  have hq : Built 5 (twoProducts.drop 1) := hp.binary_of_step (b := ⟨0⟩)
    (by simp [twoProducts]) (by simp [twoProducts]) (by rfl)
  exact hq.binary_of_step (b := ⟨0⟩) (by simp [twoProducts]) (by simp [twoProducts]) (by rfl)

theorem rebuild_product (id : Nat) {done : Builder.Rebuilt Float} (h : done[id]? = none)
    (next : Nat) :
    (⟨1⟩ : Builder).rebuild (.binary id .mul (.symbol 1 "x") (.symbol 2 "y")) done next =
      ((.binary next .mul (.symbol 1 "x") (.symbol 2 "y"),
        done.insert id (.binary next .mul (.symbol 1 "x") (.symbol 2 "y"))), next + 1) := by
  have hstep : (⟨1⟩ : Builder).step (K := Float)
    (.binary .mul (.symbol 1 "x") (.symbol 2 "y")) = none := by rfl
  rw [Builder.rebuild_binary_run h]
  simp only [Builder.rebuild_symbol, Builder.binary_of_step hstep]

theorem simplifier_sound_twoProducts :
    Reals.doubles.Lawful ∧ Built 6 twoProducts ∧
      ∀ env, ((⟨1⟩ : Builder).simplify (twoProducts.take 1) 6).1.map (Reals.doubles.value env) =
        [env 1 * env 2 - env 1 * env 2] := by
  refine ⟨Reals.lawful_doubles, built_twoProducts, fun env => ?_⟩
  have h := (simplifier_sound Reals.lawful_doubles env ⟨1⟩ built_twoProducts).2
    (twoProducts.take 1) (fun n hn => List.mem_of_mem_take hn)
  refine (h ?_).trans rfl
  intro f hf v hv
  simp only [twoProducts, Builder.requestsAll, Builder.requests, List.take,
    Std.HashMap.getElem?_empty, Builder.rebuild_symbol] at hf
  rw [rebuild_product 3 (by simp), rebuild_product 4 (by simp)] at hf
  simp only [List.append_nil, List.nil_append, List.cons_append, List.mem_cons, List.not_mem_nil,
    Std.HashMap.mem_insert, Std.HashMap.not_mem_empty, Nat.reduceBEq, Bool.false_eq_true, or_self,
    not_false_eq_true, getElem?_neg, or_false, or_self_left] at hf
  rcases hf with rfl | rfl <;> cases hv

end Tangent
