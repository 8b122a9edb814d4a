import Mathlib
import Tangent.Proofs.Literals
import Tangent.Proofs.Outlines

/-!
# Labels can be read back

The label of an entry is a text, but nothing is lost in it (`Outline.label_inj`): the number ends
where the digits do, and the name of an operation, in which there is no blank, ends at a blank or
with the label. So outlines with one tree of labels are alike (`Outline.tree_eq_iff`): they have the
same numbers, operations and names, and constants that are written the same.
-/

namespace Tangent

/-! ## Names of operations -/

namespace Op

theorem mem_all (op : Op) : op ∈ all := by
  have h := Opcode.op?_ofOp op
  unfold Opcode.op? at h
  split at h
  · exact List.mem_of_getElem? h
  · cases h

theorem name_injective : Function.Injective name := by
  have hnodup : (all.map name).Nodup := by decide +kernel
  exact fun op op' h => List.inj_on_of_nodup_map hnodup op.mem_all op'.mem_all h

/-- There is no blank in a name. -/
theorem ne_blank_of_mem_name (op : Op) : ∀ c ∈ op.name.toList, c != ' ' := by
  -- A literal is the text of its characters, which are found by unification.
  have hliteral : ∀ {cs : List Char}, cs.all (· != ' ') →
      ∀ c ∈ (String.ofList cs).toList, c != ' ' := by
    intro cs h
    rwa [String.toList_ofList, ← List.all_eq_true]
  rcases op with _ | _ | u | op
  · exact hliteral rfl
  · exact hliteral rfl
  · cases u <;> exact hliteral rfl
  · cases op <;> exact hliteral rfl

end Op

/-- Where a stretch of characters of one kind ends, a text is cut in one way only. -/
theorem append_inj_of_span {p : Char → Bool} {cs ds rest rest' : List Char} (hcs : ∀ c ∈ cs, p c)
    (hds : ∀ c ∈ ds, p c) (hrest : ∀ c ∈ rest.head?, p c = false)
    (hrest' : ∀ c ∈ rest'.head?, p c = false) (h : cs ++ rest = ds ++ rest') :
    cs = ds ∧ rest = rest' := by
  have hspan : ∀ {cs rest : List Char}, (∀ c ∈ cs, p c) → (∀ c ∈ rest.head?, p c = false) →
      (cs ++ rest).takeWhile p = cs := by
    intro cs rest hcs hrest
    rw [List.takeWhile_append_of_pos hcs]
    cases rest with
    | nil => simp
    | cons c rest => simp [hrest c rfl]
  obtain rfl : cs = ds := by rw [← hspan hcs hrest, h, hspan hds hrest']
  exact ⟨rfl, List.append_cancel_left h⟩

namespace Outline

variable {K : Type} [Numeral K]

/-- What an entry says about a node that it lays out: the operation, and the text of a leaf. -/
def kind? : Outline K → Option (Op × Option String)
  | again _ => none
  | const _ v => some (.const, some (Numeral.numeral v))
  | symbol _ s => some (.symbol, some s)
  | unary _ u _ => some (.unary u, none)
  | binary _ op _ _ => some (.binary op, none)

/-- What stands after the number. -/
def kindText : Option (Op × Option String) → List Char
  | none => []
  | some (op, none) => ' ' :: op.name.toList
  | some (op, some text) => ' ' :: (op.name.toList ++ ' ' :: text.toList)

theorem kindText_injective : Function.Injective kindText := by
  intro kind kind' h
  -- A name is followed by nothing or by a blank.
  have hname : ∀ {op op' : Op} {rest rest' : List Char}, (∀ c ∈ rest.head?, (c != ' ') = false) →
      (∀ c ∈ rest'.head?, (c != ' ') = false) →
      op.name.toList ++ rest = op'.name.toList ++ rest' → op = op' ∧ rest = rest' := by
    intro op op' rest rest' hrest hrest' h
    obtain ⟨hop, h⟩ := append_inj_of_span op.ne_blank_of_mem_name op'.ne_blank_of_mem_name hrest
      hrest' h
    exact ⟨Op.name_injective (String.toList_inj.1 hop), h⟩
  match kind, kind', h with
  | none, none, _ => rfl
  | some (op, none), some (op', none), h =>
    obtain ⟨rfl, -⟩ := @hname op op' [] [] (by simp) (by simp) (by simpa [kindText] using h)
    rfl
  | some (op, some text), some (op', some text'), h =>
    obtain ⟨rfl, htext⟩ := hname (by simp) (by simp) (List.cons.inj h).2
    rw [String.toList_inj.1 (List.cons.inj htext).2]
  | some (op, none), some (op', some text'), h =>
    obtain ⟨-, hrest⟩ := @hname op op' [] (' ' :: text'.toList) (by simp) (by simp)
      (by simpa [kindText] using h)
    cases hrest
  | some (op, some text), some (op', none), h =>
    obtain ⟨-, hrest⟩ := @hname op op' (' ' :: text.toList) [] (by simp) (by simp)
      (by simpa [kindText] using h)
    cases hrest

theorem toList_label (o : Outline K) :
    o.label.toList = '#' :: ((toString o.number).toList ++ kindText o.kind?) := by
  cases o <;> simp [label, headline, number, kind?, kindText, Op.name]

theorem label_inj {o o' : Outline K} (h : o.label = o'.label) :
    o.number = o'.number ∧ o.kind? = o'.kind? := by
  have hdigit : ∀ kind, ∀ c ∈ (kindText kind).head?, c.isDigit = false := by
    rintro (_ | ⟨op, _ | text⟩) c hc
    · cases hc
    all_goals
      obtain rfl : ' ' = c := Option.some.inj hc
      rfl
  have htext := String.toList_inj.2 h
  rw [toList_label, toList_label] at htext
  obtain ⟨hnumber, hkind⟩ := append_inj_of_span (Decimal.areDigits_toString _)
    (Decimal.areDigits_toString _) (hdigit _) (hdigit _) (List.cons.inj htext).2
  exact ⟨Nat.repr_inj.1 (String.toList_inj.1 hnumber), kindText_injective hkind⟩

/-! ## Outlines that are alike -/

/-- The two outlines have the same numbers, operations and names at the same places, and constants
that are written the same. -/
inductive Alike : Outline K → Outline K → Prop
  | again (i : Nat) : Alike (.again i) (.again i)
  | const (i : Nat) {v w : K} (h : Numeral.numeral v = Numeral.numeral w) :
      Alike (.const i v) (.const i w)
  | symbol (i : Nat) (s : String) : Alike (.symbol i s) (.symbol i s)
  | unary (i : Nat) (u : Unary) {x x' : Outline K} (hx : Alike x x') :
      Alike (.unary i u x) (.unary i u x')
  | binary (i : Nat) (op : Binary) {x x' y y' : Outline K} (hx : Alike x x') (hy : Alike y y') :
      Alike (.binary i op x y) (.binary i op x' y')

theorem Alike.labels_eq {o o' : Outline K} (h : Alike o o') : o.labels = o'.labels := by
  induction h with
  | again i => rfl
  | const i h => simp [labels, label, h]
  | symbol i s => rfl
  | unary i u hx ih => simp [labels, label, ih]
  | binary i op hx hy ihx ihy => simp [labels, label, ihx, ihy]

/-- The entries right below an entry. -/
def parts : Outline K → List (Outline K)
  | unary _ _ x => [x]
  | binary _ _ x y => [x, y]
  | _ => []

theorem labels_eq_node (o : Outline K) : o.labels = .node o.label (o.parts.map labels) := by
  cases o <;> rfl

theorem labels_inj {o o' : Outline K} (h : o.labels = o'.labels) :
    o.number = o'.number ∧ o.kind? = o'.kind? ∧ o.parts.map labels = o'.parts.map labels := by
  rw [labels_eq_node, labels_eq_node] at h
  obtain ⟨hlabel, hparts⟩ := LabelTree.node.inj h
  obtain ⟨hnumber, hkind⟩ := label_inj hlabel
  exact ⟨hnumber, hkind, hparts⟩

theorem alike_of_labels_eq {o o' : Outline K} (h : o.labels = o'.labels) : Alike o o' := by
  induction o generalizing o' with
  | again i =>
    obtain ⟨hnumber, hkind, -⟩ := labels_inj h
    cases o' with
    | again j =>
      obtain rfl : i = j := hnumber
      exact .again i
    | _ => cases hkind
  | const i v =>
    obtain ⟨hnumber, hkind, -⟩ := labels_inj h
    cases o' with
    | const j w =>
      obtain rfl : i = j := hnumber
      exact .const i (by simpa [kind?] using hkind)
    | _ => simp [kind?] at hkind
  | symbol i s =>
    obtain ⟨hnumber, hkind, -⟩ := labels_inj h
    cases o' with
    | symbol j t =>
      obtain rfl : i = j := hnumber
      obtain rfl : s = t := by simpa [kind?] using hkind
      exact .symbol i s
    | _ => simp [kind?] at hkind
  | unary i u x ih =>
    obtain ⟨hnumber, hkind, hparts⟩ := labels_inj h
    cases o' with
    | unary j u' x' =>
      obtain rfl : i = j := hnumber
      obtain rfl : u = u' := by simpa [kind?] using hkind
      exact .unary i u (ih (List.cons.inj hparts).1)
    | _ => simp [kind?] at hkind
  | binary i op x y ihx ihy =>
    obtain ⟨hnumber, hkind, hparts⟩ := labels_inj h
    cases o' with
    | binary j op' x' y' =>
      obtain rfl : i = j := hnumber
      obtain rfl : op = op' := by simpa [kind?] using hkind
      obtain ⟨hx, hparts⟩ := List.cons.inj hparts
      exact .binary i op (ihx hx) (ihy (List.cons.inj hparts).1)
    | _ => simp [kind?] at hkind

theorem tree_eq_iff {os os' : List (Outline K)} :
    tree os = tree os' ↔ List.Forall₂ Alike os os' := by
  have hlabels : (fun o o' : Outline K => o.labels = o'.labels) = Alike :=
    funext₂ fun o o' => propext ⟨alike_of_labels_eq, Alike.labels_eq⟩
  rw [tree, tree, LabelTree.node.injEq, eq_self, true_and, ← List.forall₂_eq_eq_eq,
    List.forall₂_map_left_iff, List.forall₂_map_right_iff, hlabels]

end Outline

end Tangent
