import Mathlib
import Tangent.CodeModule.Pool

/-!
# Pools have every array once

A pool is `Sound` if no two of its arrays have the same bits and every bucket lists just the arrays
whose hash it is for. Then a look-up finds an array exactly if one with its bits is there, whatever
the hash is (`find?_eq_some_iff`), and an array keeps its number when others are added.
-/

namespace Tangent.CodeModule.Pool

variable {α : Type} {p : Pool α} {v w : List α} {i : Nat}

structure Sound (p : Pool α) : Prop where
  distinct : p.arrays.Pairwise fun v w => p.bitsOf v ≠ p.bitsOf w
  mem_bucket_iff : ∀ h i, i ∈ p.buckets.getD h [] ↔ ∃ v, p.arrays[i]? = some v ∧ p.bucketOf v = h

theorem sound_empty (kind : PoolKind α) : Sound { kind } :=
  ⟨.nil, by simp⟩

/-- The array with a number has the given bits. -/
def Holds (p : Pool α) (i : Nat) (v : List α) : Prop :=
  ∃ w, p.arrays[i]? = some w ∧ p.bitsOf w = p.bitsOf v

theorem Sound.eq_of_holds (hp : p.Sound) {j : Nat} (hi : p.Holds i v) (hj : p.Holds j v) :
    i = j := by
  obtain ⟨a, ha, hav⟩ := hi
  obtain ⟨b, hb, hbv⟩ := hj
  obtain ⟨hilt, rfl⟩ := List.getElem?_eq_some_iff.1 ha
  obtain ⟨hjlt, rfl⟩ := List.getElem?_eq_some_iff.1 hb
  rcases Nat.lt_trichotomy i j with h | h | h
  · exact absurd (hav.trans hbv.symm) (List.pairwise_iff_getElem.1 hp.distinct i j hilt hjlt h)
  · exact h
  · exact absurd (hbv.trans hav.symm) (List.pairwise_iff_getElem.1 hp.distinct j i hjlt hilt h)

theorem bucketOf_eq (h : p.bitsOf v = p.bitsOf w) : p.bucketOf v = p.bucketOf w :=
  congrArg p.kind.hash h

theorem find?_eq_some_iff (hp : p.Sound) : p.find? v = some i ↔ p.Holds i v := by
  have hfound : ∀ {j}, p.find? v = some j → p.Holds j v := by
    intro j hj
    have hany := List.find?_some hj
    obtain ⟨w, hw, hbits⟩ := (Option.any_eq_true _ _).1 hany
    exact ⟨w, hw, beq_iff_eq.1 hbits⟩
  refine ⟨hfound, fun hi => ?_⟩
  rcases hf : p.find? v with _ | j
  · obtain ⟨w, hw, hbits⟩ := hi
    have hmem := (hp.mem_bucket_iff (p.bucketOf v) i).2 ⟨w, hw, bucketOf_eq hbits⟩
    have := List.find?_eq_none.1 hf i hmem
    simp [hw, hbits] at this
  · rw [hp.eq_of_holds hi (hfound hf)]

theorem find?_eq_none_iff (hp : p.Sound) :
    p.find? v = none ↔ ∀ w ∈ p.arrays, p.bitsOf w ≠ p.bitsOf v := by
  constructor
  · intro hf w hw hbits
    obtain ⟨i, hi⟩ := List.getElem?_of_mem hw
    rw [(find?_eq_some_iff hp).2 ⟨w, hi, hbits⟩] at hf
    cases hf
  · intro h
    rcases hf : p.find? v with _ | i
    · rfl
    · obtain ⟨w, hw, hbits⟩ := (find?_eq_some_iff hp).1 hf
      exact absurd hbits (h w (List.mem_of_getElem? hw))

/-! ## Adding -/

theorem add_of_some (h : p.find? v = some i) : p.add v = (i, p) := by
  simp [add, h]

/-- What adding does to a pool that does not have the array. -/
theorem add_of_none (h : p.find? v = none) : p.add v = (p.arrays.length, { p with
    arrays := p.arrays ++ [v]
    buckets := p.buckets.insert (p.bucketOf v)
      (p.buckets.getD (p.bucketOf v) [] ++ [p.arrays.length]) }) := by
  simp [add, h]

@[simp]
theorem kind_add (p : Pool α) (v : List α) : (p.add v).2.kind = p.kind := by
  rcases h : p.find? v with _ | i
  · rw [add_of_none h]
  · rw [add_of_some h]

theorem prefix_add (p : Pool α) (v : List α) : p.arrays <+: (p.add v).2.arrays := by
  rcases h : p.find? v with _ | i
  · rw [add_of_none h]
    exact List.prefix_append _ _
  · rw [add_of_some h]

theorem sound_add (hp : p.Sound) (v : List α) : (p.add v).2.Sound := by
  rcases h : p.find? v with _ | i
  · have hnew := (find?_eq_none_iff hp).1 h
    rw [add_of_none h]
    refine ⟨?_, fun hash j => ?_⟩
    · refine List.pairwise_append.2 ⟨hp.distinct, List.pairwise_singleton _ _, ?_⟩
      rintro w hw _ hv
      obtain rfl := List.mem_singleton.1 hv
      exact hnew w hw
    · -- Only the bucket of the new array changes, and only the last number is new.
      have hlast : (∃ w, (p.arrays ++ [v])[j]? = some w ∧ p.bucketOf w = hash) ↔
          (∃ w, p.arrays[j]? = some w ∧ p.bucketOf w = hash) ∨
            j = p.arrays.length ∧ p.bucketOf v = hash := by
        rcases Nat.lt_trichotomy j p.arrays.length with hj | rfl | hj
        · rw [List.getElem?_append_left hj]
          simp [Nat.ne_of_lt hj]
        · simp
        · rw [List.getElem?_append_right hj.le, List.getElem?_eq_none hj.le]
          simp [show j - p.arrays.length ≠ 0 by omega, Nat.ne_of_gt hj]
      change j ∈ (p.buckets.insert _ _).getD hash [] ↔ ∃ w, (p.arrays ++ [v])[j]? = some w ∧
        p.bucketOf w = hash
      rw [hlast, ← hp.mem_bucket_iff, Std.HashMap.getD_insert]
      by_cases hbucket : p.bucketOf v = hash
      · subst hbucket
        simp
      · simp [hbucket]
  · rw [add_of_some h]
    exact hp

theorem holds_add (hp : p.Sound) (v : List α) : (p.add v).2.Holds (p.add v).1 v := by
  rcases h : p.find? v with _ | i
  · rw [add_of_none h]
    exact ⟨v, by simp, rfl⟩
  · rw [add_of_some h]
    exact (find?_eq_some_iff hp).1 h

theorem getElem?_of_prefix {q : Pool α} (hpq : p.arrays <+: q.arrays)
    (hi : p.arrays[i]? = some v) : q.arrays[i]? = some v := by
  obtain ⟨hlt, rfl⟩ := List.getElem?_eq_some_iff.1 hi
  exact List.prefix_iff_getElem?.1 hpq i hlt

/-- An array keeps its number. -/
theorem Holds.mono {q : Pool α} (h : p.Holds i v) (hkind : q.kind = p.kind)
    (hpq : p.arrays <+: q.arrays) : q.Holds i v := by
  obtain ⟨w, hw, hbits⟩ := h
  refine ⟨w, getElem?_of_prefix hpq hw, ?_⟩
  rw [bitsOf, bitsOf, hkind]
  exact hbits

theorem find?_add_self (hp : p.Sound) (v : List α) :
    (p.add v).2.find? v = some (p.add v).1 :=
  (find?_eq_some_iff (sound_add hp v)).2 (holds_add hp v)

end Tangent.CodeModule.Pool
