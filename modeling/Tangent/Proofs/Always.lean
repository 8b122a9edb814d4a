import Tangent.Node.Apply

/-!
# What every result has

Where the supply of numbers and the nodes that were made do not matter, a build is described by its
results alone : `Build.Always` says that every result has a property, and `Building.Always` that
every result has it, if there is one.
-/

namespace Tangent

variable {α β : Type}

namespace Build

/-- Every result of the build has the property. -/
def Always (x : Build α) (P : α → Prop) : Prop :=
  ∀ next, P (x next).1

variable {P : α → Prop}

theorem Always.pure {a : α} (h : P a) : (pure a : Build α).Always P :=
  fun _ => h

theorem Always.bind {Q : β → Prop} {x : Build α} {k : α → Build β} (hx : x.Always P)
    (hk : ∀ a, P a → (k a).Always Q) : (x >>= k).Always Q :=
  fun next => hk _ (hx next) _

/-- What is built first may not matter at all. -/
theorem always_bind {Q : β → Prop} {x : Build α} {k : α → Build β} (hk : ∀ a, (k a).Always Q) :
    (x >>= k).Always Q :=
  fun _ => hk _ _

theorem Always.foldlM {I : β → Prop} {f : β → α → Build β} :
    ∀ {as : List α} {z : β}, (∀ a ∈ as, ∀ z, I z → (f z a).Always I) → I z →
      (as.foldlM f z).Always I
  | [], z, _, hz => .pure hz
  | a :: as, z, hf, hz => by
    rw [List.foldlM_cons]
    exact (hf a List.mem_cons_self z hz).bind fun z' hz' =>
      Always.foldlM (fun a' ha' => hf a' (List.mem_cons_of_mem _ ha')) hz'

theorem Always.mapM {Q : β → Prop} {f : α → Build β} :
    ∀ {as : List α}, (∀ a ∈ as, (f a).Always Q) → (as.mapM f).Always fun bs => ∀ b ∈ bs, Q b
  | [], _ => .pure (by simp)
  | a :: as, hf => by
    rw [List.mapM_cons]
    refine (hf a List.mem_cons_self).bind fun b hb => ?_
    refine (Always.mapM fun a' ha' => hf a' (List.mem_cons_of_mem _ ha')).bind fun bs hbs => ?_
    exact .pure (List.forall_mem_cons.2 ⟨hb, hbs⟩)

end Build

namespace Building

theorem run_bind_ok {x : Building α} {k : α → Building β} {next next' : Nat} {a : α}
    (h : x.run next = (.ok a, next')) : (x >>= k).run next = (k a).run next' := by
  change x.run.run next = (.ok a, next') at h
  change (x >>= k).run.run next = (k a).run.run next'
  simp only [ExceptT.run_bind, StateT.run_bind, h]
  rfl

theorem run_bind_error {x : Building α} {k : α → Building β} {next next' : Nat} {e : Error}
    (h : x.run next = (.error e, next')) : (x >>= k).run next = (.error e, next') := by
  change x.run.run next = (.error e, next') at h
  change (x >>= k).run.run next = (.error e, next')
  simp only [ExceptT.run_bind, StateT.run_bind, h]
  rfl

theorem run_mapM {f : α → Building β} {g : α → Build β}
    (h : ∀ a next, (f a).run next = (.ok (g a next).1, (g a next).2)) :
    ∀ (as : List α) (next : Nat),
      (as.mapM f).run next = (.ok (as.mapM g next).1, (as.mapM g next).2)
  | [], next => rfl
  | a :: as, next => by
    rw [List.mapM_cons, List.mapM_cons, run_bind_ok (h a next),
      run_bind_ok (run_mapM h as (g a next).2)]
    rfl

theorem run_mapM_liftM (f : α → Result β) : ∀ (as : List α) (next : Nat),
    (as.mapM fun a => (liftM (f a) : Building β)).run next = (as.mapM f, next)
  | [], next => rfl
  | a :: as, next => by
    rw [List.mapM_cons, List.mapM_cons]
    cases ha : f a with
    | error e => rfl
    | ok b =>
      have hrest := run_mapM_liftM f as next
      cases has : as.mapM f with
      | error e =>
        rw [has] at hrest
        exact (run_bind_ok rfl).trans (run_bind_error hrest)
      | ok bs =>
        rw [has] at hrest
        exact (run_bind_ok rfl).trans (run_bind_ok hrest)

/-- Every result has the property, if there is one. -/
def Always (x : Building α) (P : α → Prop) : Prop :=
  ∀ ⦃next a next'⦄, x.run next = (.ok a, next') → P a

variable {P : α → Prop}

/-- What always succeeds is described by the build that it runs like. -/
theorem Always.of_run {x : Building α} {g : Build α}
    (h : ∀ next, x.run next = (.ok (g next).1, (g next).2)) (hg : g.Always P) : x.Always P := by
  intro next a next' hrun
  rw [h] at hrun
  cases hrun
  exact hg next

theorem Always.pure {a : α} (h : P a) : (pure a : Building α).Always P :=
  .of_run (fun _ => rfl) (Build.Always.pure h)

theorem Always.lift {x : Build α} (h : x.Always P) : (liftM x : Building α).Always P :=
  .of_run (fun _ => rfl) h

theorem always_throw (e : Error) : (throw e : Building α).Always P := by
  intro next a next' hrun
  cases hrun

/-- Where nothing is built, the result is what it is. -/
theorem always_liftM (x : Result α) : (liftM x : Building α).Always fun a => x = .ok a := by
  intro next a next' hrun
  exact (Prod.mk.inj hrun).1

theorem Always.bind {Q : β → Prop} {x : Building α} {k : α → Building β} (hx : x.Always P)
    (hk : ∀ a, P a → (k a).Always Q) : (x >>= k).Always Q := by
  intro next b next' hrun
  rcases h : x.run next with ⟨e | a, mid⟩
  · rw [run_bind_error h] at hrun
    cases hrun
  · rw [run_bind_ok h] at hrun
    exact hk a (hx h) hrun

end Building

end Tangent
