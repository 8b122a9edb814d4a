import Mathlib

/-!
# Loops

What one step of a pass over a list keeps, the whole pass keeps (`Ends.foldlM`). A step may stop the
pass, so a rule says two things: what holds of the result, and what holds of the reason if there is
none. With nothing to say about the reason, the rule is about the passes that succeed
(`Ends.of_eq_ok`); with no reason at all, it says that they do (`Ends.exists_ok`).
-/

namespace Tangent

variable {α β ε : Type} {E : ε → Prop}

theorem bind_eq_ok_iff {x : Except ε α} {f : α → Except ε β} {b : β} :
    x >>= f = .ok b ↔ ∃ a, x = .ok a ∧ f a = .ok b := by
  constructor
  · intro h
    cases x with
    | ok a => exact ⟨a, rfl, h⟩
    | error e => cases h
  · rintro ⟨a, rfl, h⟩
    exact h

/-- A computation ends with a result of which `P` holds, or stops for a reason of which `E`
holds. -/
def Ends (E : ε → Prop) (P : α → Prop) : Except ε α → Prop
  | .ok a => P a
  | .error e => E e

namespace Ends

variable {P : α → Prop} {x : Except ε α}

theorem of_eq_ok (h : Ends E P x) {a : α} (hx : x = .ok a) : P a := by
  rw [hx] at h
  exact h

theorem exists_ok (h : Ends (fun _ => False) P x) : ∃ a, x = .ok a ∧ P a := by
  cases x with
  | ok a => exact ⟨a, rfl, h⟩
  | error e => exact h.elim

theorem of_exists (h : ∃ a, x = .ok a ∧ P a) : Ends E P x := by
  obtain ⟨a, rfl, ha⟩ := h
  exact ha

/-- Whatever ends, ends with what is known of the result. -/
theorem of_forall (h : ∀ a, x = .ok a → P a) : Ends (fun _ => True) P x := by
  cases x with
  | ok a => exact h a rfl
  | error e => trivial

theorem bind {f : α → Except ε β} {Q : β → Prop} (h : Ends E P x)
    (hf : ∀ a, P a → Ends E Q (f a)) : Ends E Q (x >>= f) := by
  cases x with
  | ok a => exact hf a h
  | error e => exact h

variable {f : β → α → Except ε β} {l : List α} {b : β}

/-- An invariant of a pass is about the elements that were passed. -/
theorem foldlM {P : List α → β → Prop} (hb : P [] b)
    (hstep : ∀ done x rest b, l = done ++ x :: rest → P done b →
      Ends E (P (done ++ [x])) (f b x)) :
    Ends E (P l) (l.foldlM f b) := by
  have hrest : ∀ (rest done : List α) (b : β), l = done ++ rest → P done b →
      Ends E (P l) (rest.foldlM f b) := by
    intro rest
    induction rest with
    | nil =>
      intro done b hl hb
      rw [hl, List.append_nil]
      exact hb
    | cons x rest ih =>
      intro done b hl hb
      rw [List.foldlM_cons]
      exact (hstep done x rest b hl hb).bind fun b' hb' => ih (done ++ [x]) b' (by simp [hl]) hb'
  exact hrest l [] b rfl hb

/-- An invariant of a pass over numbered elements is about how many were passed. -/
theorem foldlM_zipIdx {f : β → α × Nat → Except ε β} {P : Nat → β → Prop} (hb : P 0 b)
    (hstep : ∀ i x b, l[i]? = some x → P i b → Ends E (P (i + 1)) (f b (x, i))) :
    Ends E (P l.length) (l.zipIdx.foldlM f b) := by
  have h := foldlM (E := E) (f := f) (l := l.zipIdx) (P := fun done b => P done.length b) hb ?_
  · simpa using h
  · rintro done ⟨x, i⟩ rest b hl hb
    have hget : l.zipIdx[done.length]? = some (x, i) := by simp [hl]
    rw [List.getElem?_zipIdx, Option.map_eq_some_iff] at hget
    obtain ⟨y, hy, hyi⟩ := hget
    obtain ⟨rfl, hi⟩ := Prod.mk.inj hyi
    obtain rfl : done.length = i := by omega
    simpa using hstep done.length y b hy hb

theorem foldlM_range {f : β → Nat → Except ε β} {P : Nat → β → Prop} {n : Nat} (hb : P 0 b)
    (hstep : ∀ i b, i < n → P i b → Ends E (P (i + 1)) (f b i)) :
    Ends E (P n) ((List.range n).foldlM f b) := by
  have h := foldlM (E := E) (f := f) (l := List.range n) (P := fun done b => P done.length b) hb ?_
  · simpa using h
  · intro done i rest b hl hb
    have hget : (List.range n)[done.length]? = some i := by simp [hl]
    obtain ⟨hlt, rfl⟩ := List.getElem?_eq_some_iff.1 hget
    rw [List.getElem_range]
    simpa using hstep done.length b (by simpa using hlt) hb

end Ends

end Tangent
