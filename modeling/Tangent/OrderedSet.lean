/-!
# Sets that remember the order of insertion

An `OrderedSet` lists its elements in the order in which they were first added. The place of an
element never changes once it is in the set.
-/

namespace Tangent

/-- A set listed in the order of insertion. -/
structure OrderedSet (α : Type) where
  toList : List α
  nodup : toList.Nodup

namespace OrderedSet

variable {α : Type} [DecidableEq α]

def empty : OrderedSet α := ⟨[], List.nodup_nil⟩

instance : EmptyCollection (OrderedSet α) := ⟨empty⟩

instance : Inhabited (OrderedSet α) := ⟨empty⟩

instance : Membership α (OrderedSet α) := ⟨fun s a => a ∈ s.toList⟩

instance (a : α) (s : OrderedSet α) : Decidable (a ∈ s) :=
  inferInstanceAs (Decidable (a ∈ s.toList))

def size (s : OrderedSet α) : Nat := s.toList.length

/-- Add an element at the end, unless it is there. -/
def insert (s : OrderedSet α) (a : α) : OrderedSet α :=
  if h : a ∈ s.toList then s
  else ⟨s.toList ++ [a], by
    rw [List.nodup_append]
    refine ⟨s.nodup, by simp, ?_⟩
    rintro x hx y hy rfl
    exact h (List.mem_singleton.mp hy ▸ hx)⟩

/-- The place of an element in the order of insertion. -/
def index? (s : OrderedSet α) (a : α) : Option Nat :=
  s.toList.idxOf? a

/-- The elements up to and including `a`; all of them if `a` is not there. -/
def upTo (s : OrderedSet α) (a : α) : List α :=
  match s.index? a with
  | some i => s.toList.take (i + 1)
  | none => s.toList

omit [DecidableEq α] in
theorem mem_iff {s : OrderedSet α} {a : α} : a ∈ s ↔ a ∈ s.toList :=
  Iff.rfl

theorem toList_insert (s : OrderedSet α) (a : α) :
    (s.insert a).toList = if a ∈ s.toList then s.toList else s.toList ++ [a] := by
  unfold insert
  split <;> rfl

theorem mem_insert {s : OrderedSet α} {a b : α} : b ∈ s.insert a ↔ b ∈ s ∨ b = a := by
  rw [mem_iff, mem_iff, toList_insert]
  split
  · exact ⟨Or.inl, fun hb => hb.elim id fun e => by rwa [e]⟩
  · simp

end OrderedSet

end Tangent
