import Mathlib.Data.Set.Function
import Tangent.Proofs.Copies
import Tangent.Proofs.Simplify

/-!
# Simplified expressions are in normal form

No step applies to anything in a simplified expression (`Heap.ensures_rebuild`) : a rule gives a
form of operands that are in normal form, or of operands of these, and only what no rule applies to
is made. So a second pass simplifies nothing. It copies the expression, from its leaves on, with new
numbers (`Copying`); and because a builder treats copies as it treats the nodes themselves, no rule
applies to the copies either (`copied_rebuild`).
-/

set_option linter.unusedSectionVars false

namespace Tangent

variable {K : Type} [Scalar K] {b : Builder}

/-! ## Normal forms -/

namespace Node

/-- No step applies to the node, nor to anything that it reaches. -/
def Normal (b : Builder) (n : Node K) : Prop :=
  ∀ m, n.Reaches m → b.step m.form = none

theorem normal_iff {n : Node K} :
    n.Normal b ↔ b.step n.form = none ∧ ∀ x ∈ n.operands, x.Normal b := by
  constructor
  · exact fun h => ⟨h n (.refl n), fun x hx m hm => h m (.head hx hm)⟩
  · rintro ⟨hn, hops⟩ m hm
    rcases reaches_iff.1 hm with rfl | ⟨x, hx, hm⟩
    · exact hn
    · exact hops x hx m hm

theorem Normal.of_mem_operands {n x : Node K} (h : n.Normal b) (hx : x ∈ n.operands) : x.Normal b :=
  (normal_iff.1 h).2 x hx

theorem normal_of_leaf {n : Node K} (h : n.operands = []) : n.Normal b := by
  refine normal_iff.2 ⟨?_, by simp [h]⟩
  cases n with
  | const id v => rfl
  | symbol id name => rfl
  | _ => cases h

theorem mem_operands_form {n x : Node K} (h : x ∈ n.operands) : x ∈ n.form.operands := by
  cases n <;> simp_all [operands, form, Form.operands]

end Node

/-- What is made of nodes in normal form is in normal form. -/
theorem Builder.normal_of_settle {f : Form K} (hf : ∀ x ∈ f.operands, x.Normal b) {n : Node K}
    (hn : b.settle f = .node n ∨ b.settle f = n.form) : n.Normal b := by
  obtain ⟨hops, hstep⟩ := operands_settle (b := b) (P := Node.Normal b)
    (fun n hn x hx => hn.of_mem_operands hx) hf
  rcases hn with hn | hn
  · exact hops n (by simp [hn, Form.operands])
  · rw [hn] at hops hstep
    exact Node.normal_iff.2 ⟨hstep, fun x hx => hops x (Node.mem_operands_form hx)⟩

namespace Heap

variable {p q : Heap K} {done : Builder.Rebuilt K}

/-- Everything that was rebuilt is in normal form. -/
def Normalized (p : Heap K) (b : Builder) (done : Builder.Rebuilt K) : Prop :=
  ∀ (id : Nat) (r : Node K), done[id]? = some r → r ∈ p ∧ r.Normal b

theorem Normalized.mono (h : p.Normalized b done) (hpq : p ≤ q) : q.Normalized b done :=
  fun id r hr => ⟨mem_of_le hpq (h id r hr).1, (h id r hr).2⟩

theorem ensures_remember_normal {f : Form K} (id : Nat) (hf : ∀ x ∈ f.operands, x ∈ p)
    (hnormal : ∀ x ∈ f.operands, x.Normal b) (hdone : p.Normalized b done) :
    p.Ensures (do let r ← b.make f; return (r, done.insert id r)) fun q s =>
      (s.1 ∈ q ∧ s.1.Normal b) ∧ q.Normalized b s.2 := by
  refine (ensures_make b hf).bind fun q r hpq ⟨hr, hsettle⟩ => .pure ?_
  have hrn := Builder.normal_of_settle hnormal hsettle
  refine ⟨⟨hr, hrn⟩, fun id' r' hr' => ?_⟩
  rw [Std.HashMap.getElem?_insert] at hr'
  split at hr'
  · cases hr'
    exact ⟨hr, hrn⟩
  · exact hdone.mono hpq id' r' hr'

/-- Rebuilding leads to normal forms. -/
theorem ensures_rebuild (b : Builder) (n : Node K) :
    ∀ {p : Heap K} {done : Builder.Rebuilt K}, n ∈ p → p.Normalized b done →
      p.Ensures (b.rebuild n done) fun q s => (s.1 ∈ q ∧ s.1.Normal b) ∧ q.Normalized b s.2 := by
  induction n with
  | const id v => exact fun hn hdone => .pure ⟨⟨hn, Node.normal_of_leaf rfl⟩, hdone⟩
  | symbol id name => exact fun hn hdone => .pure ⟨⟨hn, Node.normal_of_leaf rfl⟩, hdone⟩
  | unary id u x ih =>
    intro p done hn hdone
    rw [Builder.rebuild_unary]
    cases hd : done[id]? with
    | some r => exact .pure ⟨hdone id r hd, hdone⟩
    | none =>
      refine (ih (mem_of_unary hn) hdone).bind fun q s _ ⟨hx, hdone'⟩ => ?_
      exact ensures_remember_normal id (by simpa [Form.operands] using hx.1)
        (by simpa [Form.operands] using hx.2) hdone'
  | binary id op x y ihx ihy =>
    intro p done hn hdone
    rw [Builder.rebuild_binary]
    cases hd : done[id]? with
    | some r => exact .pure ⟨hdone id r hd, hdone⟩
    | none =>
      refine (ihx (mem_left hn) hdone).bind fun q s hpq ⟨hx, hdone'⟩ => ?_
      refine (ihy (mem_of_le hpq (mem_right hn)) hdone').bind fun r s' hqr ⟨hy, hdone''⟩ => ?_
      exact ensures_remember_normal id (Form.forall_operands_binary.2 ⟨mem_of_le hqr hx.1, hy.1⟩)
        (Form.forall_operands_binary.2 ⟨hx.2, hy.2⟩) hdone''

end Heap

namespace Builder

theorem mapM_rebuild_cons (b : Builder) (n : Node K) (nodes : List (Node K)) (done : Rebuilt K) :
    (n :: nodes).mapM b.rebuild done = (do
      let s ← b.rebuild n done
      let s' ← nodes.mapM b.rebuild s.2
      return (s.1 :: s'.1, s'.2)) := by
  rw [List.mapM_cons]
  rfl

end Builder

theorem Heap.ensures_rebuildAll (b : Builder) :
    ∀ (nodes : List (Node K)) {p : Heap K} {done : Builder.Rebuilt K}, (∀ n ∈ nodes, n ∈ p) →
      p.Normalized b done →
      p.Ensures (nodes.mapM b.rebuild done) fun q s => ∀ n ∈ s.1, n ∈ q ∧ n.Normal b
  | [], p, done, _, _ => by
    rw [List.mapM_nil]
    exact .pure (by simp)
  | n :: nodes, p, done, hn, hdone => by
    rw [Builder.mapM_rebuild_cons]
    refine (ensures_rebuild b n (hn n List.mem_cons_self) hdone).bind fun q s hpq ⟨hs, hdone'⟩ => ?_
    refine (ensures_rebuildAll b nodes (fun m hm => mem_of_le hpq
      (hn m (List.mem_cons_of_mem _ hm))) hdone').bind fun r s' hqr hs' => .pure ?_
    exact List.forall_mem_cons.2 ⟨⟨mem_of_le hqr hs.1, hs.2⟩, hs'⟩

theorem Builder.simplify_eq (b : Builder) (nodes : List (Node K)) :
    b.simplify nodes = (do return (← nodes.mapM b.rebuild ∅).1) :=
  rfl

/-- Simplified nodes are in normal form. -/
theorem Heap.ensures_simplify (b : Builder) {p : Heap K} {nodes : List (Node K)}
    (hn : ∀ n ∈ nodes, n ∈ p) :
    p.Ensures (b.simplify nodes) fun q out => ∀ n ∈ out, n ∈ q ∧ n.Normal b := by
  rw [Builder.simplify_eq]
  exact (ensures_rebuildAll b nodes hn fun id r hr => by simp at hr).bind fun q s _ hs => .pure hs

/-! ## The second pass -/

/-- What a node was rebuilt to. A leaf stays what it is. -/
def rebuiltTo (done : Builder.Rebuilt K) : Node K → Node K
  | .const id v => .const id v
  | .symbol id name => .symbol id name
  | .unary id u x => (done[id]?).getD (.unary id u x)
  | .binary id op x y => (done[id]?).getD (.binary id op x y)

/-- The node was rebuilt, or is a leaf. -/
def IsRebuilt (done : Builder.Rebuilt K) (n : Node K) : Prop :=
  n.operands = [] ∨ ∃ r, done[n.id]? = some r

theorem rebuiltTo_of_leaf {done : Builder.Rebuilt K} {n : Node K} (h : n.operands = []) :
    rebuiltTo done n = n := by
  cases n <;> first | rfl | cases h

theorem rebuiltTo_of_getElem? {done : Builder.Rebuilt K} {n r : Node K} (h : n.operands ≠ [])
    (hr : done[n.id]? = some r) : rebuiltTo done n = r := by
  cases n with
  | unary id u x =>
    change done[id]? = some r at hr
    rw [rebuiltTo, hr, Option.getD_some]
  | binary id op x y =>
    change done[id]? = some r at hr
    rw [rebuiltTo, hr, Option.getD_some]
  | _ => exact absurd rfl h

theorem CopyOf.congr {f g : Node K → Node K} {n n' : Node K} (h : CopyOf f n n')
    (hfg : ∀ x ∈ n.operands, f x = g x) : CopyOf g n n' := by
  cases h with
  | const i j v => exact .const i j v
  | symbol i s => exact .symbol i s
  | unary i j u x =>
    rw [hfg x (by simp [Node.operands])]
    exact .unary i j u x
  | binary i j op x y =>
    rw [hfg x (by simp [Node.operands]), hfg y (by simp [Node.operands])]
    exact .binary i j op x y

/-- The nodes of a heap that are in normal form and were rebuilt so far have copies, with numbers
that were drawn after the heap. -/
structure Copying (b : Builder) (p : Heap K) (done : Builder.Rebuilt K) (next : Nat) : Prop where
  le_next : p.next ≤ next
  fresh : ∀ (id : Nat) (r : Node K), done[id]? = some r → p.next ≤ r.id ∧ r.id < next
  copies : Copies (rebuiltTo done) {n | n ∈ p ∧ n.Normal b ∧ IsRebuilt done n}

/-- What was rebuilt stays so. -/
def Continues (p : Heap K) (done done' : Builder.Rebuilt K) : Prop :=
  ∀ n ∈ p, IsRebuilt done n → IsRebuilt done' n ∧ rebuiltTo done' n = rebuiltTo done n

theorem Continues.refl (p : Heap K) (done : Builder.Rebuilt K) : Continues p done done :=
  fun _ _ h => ⟨h, rfl⟩

theorem Continues.trans {p : Heap K} {done mid done' : Builder.Rebuilt K}
    (h : Continues p done mid) (h' : Continues p mid done') : Continues p done done' := by
  intro n hn hr
  obtain ⟨hmid, heq⟩ := h n hn hr
  obtain ⟨hdone, heq'⟩ := h' n hn hmid
  exact ⟨hdone, heq'.trans heq⟩

theorem isRebuilt_of_insert {p : Heap K} {done : Builder.Rebuilt K} {m n r : Node K} (hn : n ∈ p)
    (hm : m ∈ p) (h : IsRebuilt (done.insert n.id r) m) : m = n ∨ IsRebuilt done m := by
  rcases h with hleaf | ⟨r', hr'⟩
  · exact Or.inr (Or.inl hleaf)
  · rw [Std.HashMap.getElem?_insert] at hr'
    split at hr'
    · next he => exact Or.inl (p.eq_of_id hm hn (eq_of_beq he).symm)
    · exact Or.inr (Or.inr ⟨r', hr'⟩)

theorem continues_insert {p : Heap K} {done : Builder.Rebuilt K} {id : Nat}
    (hnew : done[id]? = none) (r : Node K) : Continues p done (done.insert id r) := by
  intro n hn hr
  by_cases hleaf : n.operands = []
  · exact ⟨Or.inl hleaf, by rw [rebuiltTo_of_leaf hleaf, rebuiltTo_of_leaf hleaf]⟩
  · obtain ⟨r', hr'⟩ := hr.resolve_left hleaf
    have hne : id ≠ n.id := by
      rintro rfl
      rw [hnew] at hr'
      cases hr'
    have hget : (done.insert id r)[n.id]? = some r' := by
      rw [Std.HashMap.getElem?_insert, if_neg (by simpa using hne), hr']
    exact ⟨Or.inr ⟨r', hget⟩, by
      rw [rebuiltTo_of_getElem? hleaf hget, rebuiltTo_of_getElem? hleaf hr']⟩

namespace Copying

variable {p : Heap K} {done : Builder.Rebuilt K} {next : Nat} {n r : Node K}

theorem empty (b : Builder) (hnext : p.next ≤ next) : Copying b p ∅ next where
  le_next := hnext
  fresh id r hr := by simp at hr
  copies := by
    have hleaf : ∀ {n : Node K}, IsRebuilt ∅ n → n.operands = [] := fun h =>
      h.resolve_right (by simp)
    refine ⟨fun {n x} hn hx => ?_, fun {n} hn => ?_, fun hm hn => ?_⟩
    · rw [hleaf hn.2.2] at hx
      cases hx
    · rw [rebuiltTo_of_leaf (hleaf hn.2.2)]
      cases n with
      | const id v => exact .const id id v
      | symbol id name => exact .symbol id name
      | _ => cases hleaf hn.2.2
    · rw [rebuiltTo_of_leaf (hleaf hm.2.2), rebuiltTo_of_leaf (hleaf hn.2.2)]

theorem id_lt (h : Copying b p done next) (hn : n ∈ p) (hr : IsRebuilt done n) :
    (rebuiltTo done n).id < next := by
  by_cases hleaf : n.operands = []
  · rw [rebuiltTo_of_leaf hleaf]
    exact Nat.lt_of_lt_of_le (p.id_lt hn) h.le_next
  · obtain ⟨r, hr⟩ := hr.resolve_left hleaf
    rw [rebuiltTo_of_getElem? hleaf hr]
    exact (h.fresh n.id r hr).2

/-- No step applies to an operation on copies of nodes in normal form. -/
theorem step_map (h : Copying b p done next) {f : Form K} (hf : b.step f = none)
    (hops : ∀ x ∈ f.operands, x ∈ p ∧ x.Normal b ∧ IsRebuilt done x) :
    b.step (f.map (rebuiltTo done)) = none := by
  rw [h.copies.step_map b hops, hf]
  rfl

/-- A node that was not rebuilt before has a number of its own among those that were. -/
theorem ne_id (hn : n ∈ p) (hops : n.operands ≠ []) (hnew : done[n.id]? = none) {m : Node K}
    (hm : m ∈ p) (hr : IsRebuilt done m) : m.id ≠ n.id := by
  intro he
  obtain rfl := p.eq_of_id hm hn he
  obtain ⟨r, hr⟩ := hr.resolve_left hops
  rw [hnew] at hr
  cases hr

/-- An operation whose operands were rebuilt is rebuilt to a copy with the next number. -/
theorem insert (h : Copying b p done next) (hn : n ∈ p) (hnormal : n.Normal b)
    (hops : n.operands ≠ []) (hrebuilt : ∀ x ∈ n.operands, IsRebuilt done x)
    (hnew : done[n.id]? = none) (hr : CopyOf (rebuiltTo done) n r) (hid : r.id = next) :
    Copying b p (done.insert n.id r) (next + 1) := by
  have hcont : Continues p done (done.insert n.id r) := continues_insert hnew r
  have hself : rebuiltTo (done.insert n.id r) n = r :=
    rebuiltTo_of_getElem? hops Std.HashMap.getElem?_insert_self
  refine ⟨Nat.le_succ_of_le h.le_next, fun id r' hr' => ?_, ?_, ?_, ?_⟩
  · rw [Std.HashMap.getElem?_insert] at hr'
    split at hr'
    · cases hr'
      have := h.le_next
      omega
    · have := h.fresh id r' hr'
      omega
  · rintro m x ⟨hm, hmn, hrm⟩ hx
    have hxp := p.operands_mem hm hx
    have hrx : IsRebuilt done x := by
      rcases isRebuilt_of_insert hn hm hrm with rfl | hrm
      · exact hrebuilt x hx
      · exact (h.copies.operands_mem ⟨hm, hmn, hrm⟩ hx).2.2
    exact ⟨hxp, hmn.of_mem_operands hx, (hcont x hxp hrx).1⟩
  · rintro m ⟨hm, hmn, hrm⟩
    rcases isRebuilt_of_insert hn hm hrm with rfl | hrm
    · rw [hself]
      exact hr.congr fun x hx => (hcont x (p.operands_mem hm hx) (hrebuilt x hx)).2.symm
    · rw [(hcont m hm hrm).2]
      refine (h.copies.copy ⟨hm, hmn, hrm⟩).congr fun x hx => ?_
      obtain ⟨hxp, -, hrx⟩ := h.copies.operands_mem ⟨hm, hmn, hrm⟩ hx
      exact (hcont x hxp hrx).2.symm
  · -- The new copy has a number that no earlier one has, as its node has among their nodes.
    rintro m m' ⟨hm, hmn, hrm⟩ ⟨hm', hmn', hrm'⟩
    rcases isRebuilt_of_insert hn hm hrm with rfl | hrm₀ <;>
      rcases isRebuilt_of_insert hn hm' hrm' with rfl | hrm₀'
    · simp [Node.same]
    · have hlt := h.id_lt hm' hrm₀'
      have hne := ne_id hn hops hnew hm' hrm₀'
      rw [hself, (hcont m' hm' hrm₀').2]
      simp [Node.same, hid, hlt.ne', hne.symm]
    · have hlt := h.id_lt hm hrm₀
      have hne := ne_id hn hops hnew hm hrm₀
      rw [hself, (hcont m hm hrm₀).2]
      simp [Node.same, hid, hlt.ne, hne]
    · rw [(hcont m hm hrm₀).2, (hcont m' hm' hrm₀').2]
      exact h.copies.same ⟨hm, hmn, hrm₀⟩ ⟨hm', hmn', hrm₀'⟩

end Copying

/-- What rebuilding a node in normal form leads to : a copy of it. -/
structure Copied (b : Builder) (p : Heap K) (done : Builder.Rebuilt K) (n : Node K)
    (s : (Node K × Builder.Rebuilt K) × Nat) : Prop where
  copying : Copying b p s.1.2 s.2
  isRebuilt : IsRebuilt s.1.2 n
  eq : s.1.1 = rebuiltTo s.1.2 n
  continues : Continues p done s.1.2
  /-- Nothing that is larger than the node is rebuilt on the way. -/
  larger : ∀ m ∈ p, n.size < m.size → s.1.2[m.id]? = done[m.id]?

namespace Copied

variable {p : Heap K} {done mid : Builder.Rebuilt K} {next : Nat} {n r : Node K}

/-- A node that is rebuilt already. -/
theorem of_isRebuilt (h : Copying b p done next) (hr : IsRebuilt done n) :
    Copied b p done n ((rebuiltTo done n, done), next) :=
  ⟨h, hr, rfl, .refl p done, fun _ _ _ => rfl⟩

theorem of_getElem? (h : Copying b p done next) (hops : n.operands ≠ [])
    (hd : done[n.id]? = some r) : Copied b p done n ((r, done), next) := by
  have := of_isRebuilt h (Or.inr ⟨r, hd⟩)
  rwa [rebuiltTo_of_getElem? hops hd] at this

/-- A node whose operands were rebuilt. -/
theorem of_insert (h : Copying b p mid next) (hcont : Continues p done mid)
    (hlarger : ∀ m ∈ p, n.size ≤ m.size → mid[m.id]? = done[m.id]?) (hn : n ∈ p)
    (hnormal : n.Normal b) (hops : n.operands ≠ []) (hrebuilt : ∀ x ∈ n.operands, IsRebuilt mid x)
    (hnew : done[n.id]? = none) (hr : CopyOf (rebuiltTo mid) n r) (hid : r.id = next) :
    Copied b p done n ((r, mid.insert n.id r), next + 1) := by
  have hnew' : mid[n.id]? = none := (hlarger n hn (Nat.le_refl _)).trans hnew
  have hself : (mid.insert n.id r)[n.id]? = some r := Std.HashMap.getElem?_insert_self
  refine ⟨h.insert hn hnormal hops hrebuilt hnew' hr hid, Or.inr ⟨r, hself⟩,
    (rebuiltTo_of_getElem? hops hself).symm, hcont.trans (continues_insert hnew' r),
    fun m hm hlt => ?_⟩
  have hne : n.id ≠ m.id := fun he => by
    rw [p.eq_of_id hn hm he] at hlt
    exact Nat.lt_irrefl _ hlt
  rw [← hlarger m hm (Nat.le_of_lt hlt), Std.HashMap.getElem?_insert, if_neg (by simpa using hne)]

end Copied

/-- Rebuilding a node in normal form copies it. -/
theorem copied_rebuild {p : Heap K} (n : Node K) :
    ∀ {done : Builder.Rebuilt K} {next : Nat}, n ∈ p → n.Normal b → Copying b p done next →
      Copied b p done n (b.rebuild n done next) := by
  induction n with
  | const id v => exact fun _ _ h => .of_isRebuilt h (Or.inl rfl)
  | symbol id name => exact fun _ _ h => .of_isRebuilt h (Or.inl rfl)
  | unary id u x ih =>
    intro done next hn hnormal h
    cases hd : done[id]? with
    | some r =>
      rw [Builder.rebuild_unary, hd]
      exact .of_getElem? h (by simp [Node.operands]) hd
    | none =>
      obtain ⟨hstep, hops⟩ := Node.normal_iff.1 hnormal
      have hx := hops x (by simp [Node.operands])
      have hc := ih (Heap.mem_of_unary hn) hx h
      rw [Builder.rebuild_unary_run hd]
      dsimp only
      set s := b.rebuild x done next
      have hstep' : b.step (.unary u s.1.1) = none := by
        rw [hc.eq]
        exact hc.copying.step_map hstep
          (by simpa [Form.operands, Node.form] using ⟨Heap.mem_of_unary hn, hx, hc.isRebuilt⟩)
      rw [Builder.unary_of_step hstep', hc.eq]
      refine .of_insert hc.copying hc.continues (fun m hm hle => hc.larger m hm ?_) hn hnormal
        (by simp [Node.operands]) (by simpa [Node.operands] using hc.isRebuilt) hd
        (.unary id _ u x) rfl
      simp only [Node.size] at hle
      omega
  | binary id op x y ihx ihy =>
    intro done next hn hnormal h
    cases hd : done[id]? with
    | some r =>
      rw [Builder.rebuild_binary, hd]
      exact .of_getElem? h (by simp [Node.operands]) hd
    | none =>
      obtain ⟨hstep, hops⟩ := Node.normal_iff.1 hnormal
      have hxn := hops x (by simp [Node.operands])
      have hyn := hops y (by simp [Node.operands])
      have hx := ihx (Heap.mem_left hn) hxn h
      rw [Builder.rebuild_binary_run hd]
      set s := b.rebuild x done next
      have hy := ihy (Heap.mem_right hn) hyn hx.copying
      dsimp only
      set s' := b.rebuild y s.1.2 s.2
      obtain ⟨hxr, hxeq⟩ := hy.continues x (Heap.mem_left hn) hx.isRebuilt
      have hstep' : b.step (.binary op s.1.1 s'.1.1) = none := by
        rw [hx.eq, ← hxeq, hy.eq]
        exact hy.copying.step_map hstep (Form.forall_operands_binary.2
          ⟨⟨Heap.mem_left hn, hxn, hxr⟩, Heap.mem_right hn, hyn, hy.isRebuilt⟩)
      rw [Builder.binary_of_step hstep', hx.eq, ← hxeq, hy.eq]
      refine .of_insert hy.copying (hx.continues.trans hy.continues) (fun m hm hle => ?_) hn hnormal
        (by simp [Node.operands]) (by simpa [Node.operands] using ⟨hxr, hy.isRebuilt⟩) hd
        (.binary id _ op x y) rfl
      simp only [Node.size] at hle
      rw [hy.larger m hm (by omega), hx.larger m hm (by omega)]

/-- What rebuilding several nodes in normal form leads to : copies of them. -/
structure CopiedAll (b : Builder) (p : Heap K) (done : Builder.Rebuilt K) (nodes : List (Node K))
    (s : (List (Node K) × Builder.Rebuilt K) × Nat) : Prop where
  copying : Copying b p s.1.2 s.2
  isRebuilt : ∀ n ∈ nodes, IsRebuilt s.1.2 n
  eq : s.1.1 = nodes.map (rebuiltTo s.1.2)
  continues : Continues p done s.1.2

theorem copied_rebuildAll {p : Heap K} :
    ∀ (nodes : List (Node K)) {done : Builder.Rebuilt K} {next : Nat},
      (∀ n ∈ nodes, n ∈ p ∧ n.Normal b) → Copying b p done next →
      CopiedAll b p done nodes (nodes.mapM b.rebuild done next)
  | [], done, next, _, h => by
    rw [List.mapM_nil]
    exact ⟨h, by simp, rfl, .refl p done⟩
  | n :: nodes, done, next, hn, h => by
    obtain ⟨hhead, htail⟩ := List.forall_mem_cons.1 hn
    have hc := copied_rebuild n hhead.1 hhead.2 h
    have hcs := copied_rebuildAll nodes htail hc.copying
    obtain ⟨hr, heq⟩ := hcs.continues n hhead.1 hc.isRebuilt
    rw [Builder.mapM_rebuild_cons]
    refine ⟨hcs.copying, List.forall_mem_cons.2 ⟨hr, hcs.isRebuilt⟩, ?_,
      hc.continues.trans hcs.continues⟩
    exact congrArg₂ List.cons (hc.eq.trans heq.symm) hcs.eq

/-! ## Isomorphic expressions -/

/-- The nodes that the roots reach. -/
def Node.reachedFrom (roots : List (Node K)) : Set (Node K) :=
  {n | ∃ r ∈ roots, r.Reaches n}

omit [Scalar K] in
theorem Node.operands_mem_reachedFrom {roots : List (Node K)} {n x : Node K}
    (hn : n ∈ Node.reachedFrom roots) (hx : x ∈ n.operands) : x ∈ Node.reachedFrom roots := by
  obtain ⟨r, hr, hreach⟩ := hn
  exact ⟨r, hr, hreach.tail hx⟩

/-- A renaming of the nodes that some roots reach : leaves stay what they are, operations and the
order of operands are kept, and so is what is shared. -/
structure Isomorphism (f : Node K → Node K) (roots roots' : List (Node K)) : Prop where
  map_roots : roots' = roots.map f
  bijOn : Set.BijOn f (Node.reachedFrom roots) (Node.reachedFrom roots')
  leaf : ∀ n ∈ Node.reachedFrom roots, n.operands = [] → f n = n
  op : ∀ n ∈ Node.reachedFrom roots, (f n).op = n.op
  operands : ∀ n ∈ Node.reachedFrom roots, (f n).operands = n.operands.map f
  same : ∀ m ∈ Node.reachedFrom roots, ∀ n ∈ Node.reachedFrom roots, (f m).same (f n) = m.same n

namespace Copies

variable {f : Node K → Node K} {nodes : Set (Node K)}

theorem mem_of_reaches (h : Copies f nodes) {n m : Node K} (hn : n ∈ nodes) (hm : n.Reaches m) :
    m ∈ nodes :=
  hm.inherits (fun _ hm _ hx => h.operands_mem hm hx) hn

theorem reaches_map (h : Copies f nodes) {n m : Node K} (hn : n ∈ nodes) (hm : n.Reaches m) :
    (f n).Reaches (f m) := by
  induction hm with
  | refl => exact .refl _
  | @tail m x hm hx ih =>
    refine ih.tail ?_
    rw [(h.copy (h.mem_of_reaches hn hm)).operands]
    exact List.mem_map_of_mem hx

/-- A copy reaches copies alone. -/
theorem exists_of_map_reaches (h : Copies f nodes) {n m' : Node K} (hn : n ∈ nodes)
    (hm : (f n).Reaches m') : ∃ m, n.Reaches m ∧ f m = m' := by
  induction hm with
  | refl => exact ⟨n, .refl n, rfl⟩
  | tail _ hx ih =>
    obtain ⟨m, hm, rfl⟩ := ih
    rw [(h.copy (h.mem_of_reaches hn hm)).operands] at hx
    obtain ⟨x, hxm, rfl⟩ := List.mem_map.1 hx
    exact ⟨x, hm.tail hxm, rfl⟩

theorem isomorphism {done : Builder.Rebuilt K} (h : Copies (rebuiltTo done) nodes)
    (hid : ∀ {m n : Node K}, m ∈ nodes → n ∈ nodes → m.id = n.id → m = n) {roots : List (Node K)}
    (hroots : ∀ n ∈ roots, n ∈ nodes) :
    Isomorphism (rebuiltTo done) roots (roots.map (rebuiltTo done)) := by
  have hmem : ∀ n ∈ Node.reachedFrom roots, n ∈ nodes := fun n ⟨r, hr, hn⟩ =>
    h.mem_of_reaches (hroots r hr) hn
  refine ⟨rfl, ⟨?_, ?_, ?_⟩, fun n _ => rebuiltTo_of_leaf,
    fun n hn => (h.copy (hmem n hn)).op, fun n hn => (h.copy (hmem n hn)).operands,
    fun m hm n hn => h.same (hmem m hm) (hmem n hn)⟩
  · rintro n ⟨r, hr, hn⟩
    exact ⟨_, List.mem_map_of_mem hr, h.reaches_map (hroots r hr) hn⟩
  · intro m hm n hn heq
    have hsame := h.same (hmem m hm) (hmem n hn)
    rw [heq] at hsame
    exact hid (hmem m hm) (hmem n hn) (by simpa [Node.same] using hsame)
  · rintro n' ⟨r', hr', hn'⟩
    obtain ⟨r, hr, rfl⟩ := List.mem_map.1 hr'
    obtain ⟨n, hn, rfl⟩ := h.exists_of_map_reaches (hroots r hr) hn'
    exact ⟨n, ⟨r, hr, hn⟩, rfl⟩

end Copies

/-- Simplifying leaves nothing to simplify : no step applies to anything in the result, and to
simplify the result, then or later, only copies it. -/
theorem simplify_idempotent (b : Builder) {next : Nat} {nodes roots : List (Node K)}
    (hbuilt : Built next nodes) (hroots : ∀ n ∈ roots, n ∈ nodes) :
    (∀ n ∈ Node.reachedFrom (b.simplify roots next).1, b.step n.form = none) ∧
      ∀ later ≥ (b.simplify roots next).2, ∃ f : Node K → Node K,
        Isomorphism f (b.simplify roots next).1
          (b.simplify (b.simplify roots next).1 later).1 := by
  obtain ⟨p, rfl, hp⟩ := hbuilt.exists_heap
  obtain ⟨q, -, hq, hnormal⟩ := Heap.ensures_simplify b fun n hn => hp n (hroots n hn)
  refine ⟨fun n ⟨r, hr, hn⟩ => (hnormal r hr).2 n hn, fun later hlater => ?_⟩
  have h := copied_rebuildAll _ hnormal (Copying.empty b (hq.trans_le hlater))
  have hiso := h.copying.copies.isomorphism (fun hm hn => q.eq_of_id hm.1 hn.1)
    (fun n hn => ⟨(hnormal n hn).1, (hnormal n hn).2, h.isRebuilt n hn⟩)
  rw [← h.eq] at hiso
  exact ⟨_, hiso⟩

/-- What two products and their difference simplify to, for a builder that looks at the operands of
the products : their difference is zero. -/
def zeroAndProducts (p q : Nat) : List (Node Float) :=
  let x : Node Float := .symbol 1 "x"
  let y : Node Float := .symbol 2 "y"
  [.const 8 0, .binary q .mul x y, .binary p .mul x y, y, x]

theorem simplify_twoProducts :
    (⟨1⟩ : Builder).simplify twoProducts 6 = (zeroAndProducts 6 7, 9) := by
  cbv

theorem simplify_zeroAndProducts :
    (⟨1⟩ : Builder).simplify (zeroAndProducts 6 7) 9 = (zeroAndProducts 10 9, 11) := by
  cbv

theorem simplify_idempotent_twoProducts :
    Built 6 twoProducts ∧ (∀ n ∈ twoProducts, n ∈ twoProducts) ∧
      (∀ n ∈ Node.reachedFrom (zeroAndProducts 6 7), (⟨1⟩ : Builder).step n.form = none) ∧
      ∃ f, Isomorphism f (zeroAndProducts 6 7) (zeroAndProducts 10 9) := by
  have h := simplify_idempotent ⟨1⟩ built_twoProducts fun n hn => hn
  rw [simplify_twoProducts] at h
  obtain ⟨f, hf⟩ := h.2 9 (Nat.le_refl 9)
  rw [simplify_zeroAndProducts] at hf
  exact ⟨built_twoProducts, fun n hn => hn, h.1, f, hf⟩

end Tangent
