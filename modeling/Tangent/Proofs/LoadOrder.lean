import Mathlib
import Tangent.Program.Load
import Tangent.Proofs.Always
import Tangent.Proofs.PatternKeys

/-!
# The order of declarations

The patterns of a program are declared one after the other, and every declaration draws a key. In
another order the same patterns get other keys, and that is the only difference (`Rekeyed`): a
routine looks patterns up by their names, so what is built from one table is built from the other
(`routine_of_rekeyed`).

A declaration that fails ends the loading with its error (`loadInOrder_cons_error`). So the order
does matter where two declarations fail, and fail in different ways.
-/

namespace Tangent.Program

/-! ## One table -/

/-- What one declaration declares. -/
def declaration (entry : String × PatternRecord) : Result (String × Pattern) :=
  if entry.1 = scalarName then .issue (.predefinedPattern entry.1)
  else (entry.2.build.within ("pattern " ++ entry.1 ++ ": ")).map fun p => (entry.1, p)

/-- The patterns with the next keys. -/
def declared (next : Nat) : List (String × Pattern) → List (String × SharedPattern)
  | [] => []
  | (name, p) :: built => (name, ⟨next, p⟩) :: declared (next + 1) built

/-- The program with the given patterns. -/
def assemble (functions : List FunctionRecord) (patterns : List (String × SharedPattern)) :
    Result Program := do
  let routines ← functions.mapM (·.routine patterns)
  return { patterns, routines }

theorem declare_eq (patterns : List (String × SharedPattern)) (entry : String × PatternRecord) :
    declare patterns entry = do
      let built ← liftM (declaration entry)
      return patterns ++ [(built.1, ← SharedPattern.share built.2)] := by
  obtain ⟨name, r⟩ := entry
  unfold declare declaration
  by_cases hname : name = scalarName
  · simp only [if_pos hname]
    rfl
  · simp only [if_neg hname]
    cases r.build.within ("pattern " ++ name ++ ": ") with
    | error e => rfl
    | ok p => rfl

/-- The declarations are looked at one after the other, and draw their keys in this order. -/
theorem run_foldlM_declare : ∀ (entries : List (String × PatternRecord))
    (patterns : List (String × SharedPattern)) (next : Nat),
    ((entries.foldlM declare patterns).run next).1 =
      (entries.mapM declaration).map fun built => patterns ++ declared next built
  | [], patterns, next => by
    rw [List.foldlM_nil, List.mapM_nil]
    exact congrArg Except.ok (List.append_nil patterns).symm
  | entry :: entries, patterns, next => by
    rw [List.foldlM_cons, List.mapM_cons, declare_eq]
    cases h : declaration entry with
    | error e => rfl
    | ok built =>
      have hrun : ((do
          let built ← liftM (.ok built : Result (String × Pattern))
          return patterns ++ [(built.1, ← SharedPattern.share built.2)] : Building _)).run next =
          (.ok (patterns ++ [(built.1, ⟨next, built.2⟩)]), next + 1) := rfl
      rw [Building.run_bind_ok hrun, run_foldlM_declare]
      cases entries.mapM declaration with
      | error e => rfl
      | ok rest => exact congrArg Except.ok (List.append_assoc _ _ _)

theorem run_ofRecord (r : ProgramRecord) (next : Nat) :
    ((ofRecord r).run next).1 = (do
      let built ← r.patterns.mapM declaration
      assemble r.functions ((scalarName, .scalar) :: declared next built)) := by
  have hdeclare := run_foldlM_declare r.patterns [(scalarName, .scalar)] next
  unfold ofRecord
  rcases hrun : (r.patterns.foldlM declare [(scalarName, .scalar)]).run next with ⟨x, next'⟩
  rw [hrun] at hdeclare
  cases hbuilt : r.patterns.mapM declaration with
  | error e =>
    rw [hbuilt] at hdeclare
    obtain rfl : x = .error e := hdeclare
    rw [Building.run_bind_error hrun]
    rfl
  | ok built =>
    rw [hbuilt] at hdeclare
    obtain rfl : x = .ok ((scalarName, .scalar) :: declared next built) := hdeclare
    rw [Building.run_bind_ok hrun]
    have hroutines := Building.run_mapM_liftM
      (·.routine ((scalarName, .scalar) :: declared next built)) r.functions next'
    change _ = assemble r.functions ((scalarName, .scalar) :: declared next built)
    unfold assemble
    cases hf : r.functions.mapM (·.routine ((scalarName, .scalar) :: declared next built)) with
    | error e =>
      rw [hf] at hroutines
      rw [Building.run_bind_error hroutines]
      rfl
    | ok routines =>
      rw [hf] at hroutines
      rw [Building.run_bind_ok hroutines]
      rfl

/-! ## Two tables -/

/-- The second table has the patterns of the first one, with other keys. -/
def Rekeyed (ρ : Nat → Nat) (t t' : List (String × SharedPattern)) : Prop :=
  ∀ name, t'.lookup name = (t.lookup name).map (·.rekey ρ)

theorem lookup_cons {α : Type} (name : String) (a : α) (t : List (String × α)) (x : String) :
    List.lookup x ((name, a) :: t) = if x = name then some a else t.lookup x := by
  rw [List.lookup_cons]
  by_cases h : x = name
  · rw [if_pos h, beq_iff_eq.2 h]
  · rw [if_neg h, beq_eq_false_iff_ne.2 h]

theorem Rekeyed.cons {ρ : Nat → Nat} {t t' : List (String × SharedPattern)} (h : Rekeyed ρ t t')
    (name : String) {sp : SharedPattern} (hsp : ρ sp.key = sp.key) :
    Rekeyed ρ ((name, sp) :: t) ((name, sp) :: t') := by
  intro x
  rw [lookup_cons, lookup_cons]
  split_ifs
  · rw [Option.map_some, SharedPattern.rekey_of_eq hsp]
  · exact h x

theorem Rekeyed.trans {ρ σ : Nat → Nat} {t t' t'' : List (String × SharedPattern)}
    (h : Rekeyed ρ t t') (h' : Rekeyed σ t' t'') : Rekeyed (σ ∘ ρ) t t'' := by
  intro name
  rw [h' name, h name, Option.map_map]
  rfl

/-- Keys that come later stay what they are. -/
theorem rekeyed_declared_of_fixed {ρ : Nat → Nat} : ∀ (built : List (String × Pattern))
    (next : Nat), (∀ k, next ≤ k → ρ k = k) → Rekeyed ρ (declared next built) (declared next built)
  | [], _, _ => fun _ => rfl
  | (name, p) :: built, next, h =>
    (rekeyed_declared_of_fixed built (next + 1) fun k hk => h k (by omega)).cons name
      (h next (le_refl next))

/-- In another order, the patterns only get other keys. -/
theorem exists_rekeyed_of_perm {built built' : List (String × Pattern)} (h : built.Perm built') :
    ∀ next, (built.map Prod.fst).Nodup → ∃ ρ : Equiv.Perm Nat, (∀ k < next, ρ k = k) ∧
      Rekeyed ρ (declared next built) (declared next built') := by
  induction h with
  | nil => exact fun next _ => ⟨1, fun _ _ => rfl, fun _ => rfl⟩
  | @cons x built built' _ ih =>
    intro next hnames
    obtain ⟨ρ, hfix, hρ⟩ := ih (next + 1) (List.nodup_cons.1 hnames).2
    exact ⟨ρ, fun k hk => hfix k (by omega), hρ.cons x.1 (hfix next (by omega))⟩
  | swap x y built =>
    intro next hnames
    have hne : y.1 ≠ x.1 := fun h => (List.nodup_cons.1 hnames).1 (h ▸ List.mem_cons_self)
    refine ⟨Equiv.swap next (next + 1), fun k hk => ?_, fun name => ?_⟩
    · exact Equiv.swap_apply_of_ne_of_ne (by omega) (by omega)
    · have hrest := rekeyed_declared_of_fixed (ρ := Equiv.swap next (next + 1)) built
        (next + 2) (fun k hk => Equiv.swap_apply_of_ne_of_ne (by omega) (by omega)) name
      simp only [declared, lookup_cons]
      split_ifs with hx hy hy
      · exact absurd (hy.symm.trans hx) hne
      · simp [SharedPattern.rekey]
      · simp [SharedPattern.rekey]
      · exact hrest
  | @trans built mid built' h _ ih ih' =>
    intro next hnames
    obtain ⟨ρ, hfix, hρ⟩ := ih next hnames
    obtain ⟨σ, hfix', hσ⟩ := ih' next ((h.map Prod.fst).nodup_iff.1 hnames)
    exact ⟨ρ.trans σ, fun k hk => by simp [hfix k hk, hfix' k hk], hρ.trans hσ⟩

/-! ## What is built from them -/

variable {ρ : Nat → Nat} {t t' : List (String × SharedPattern)}

theorem pattern_of_rekeyed (h : Rekeyed ρ t t') (name : String) :
    pattern t' name = (pattern t name).map (·.rekey ρ) := by
  unfold pattern
  rw [h name]
  cases t.lookup name <;> rfl

theorem patternsOf_of_rekeyed (h : Rekeyed ρ t t') (names : List String) :
    patternsOf t' names =
      ((patternsOf t names).1, (patternsOf t names).2.map (Option.map (·.rekey ρ))) := by
  unfold patternsOf
  refine Prod.ext ?_ ?_
  · refine List.filterMap_congr fun name _ => ?_
    rw [pattern_of_rekeyed h name]
    cases pattern t name <;> rfl
  · simp only [List.map_map]
    exact List.map_congr_left fun name _ => h name

theorem allPatterns_of_rekeyed (h : Rekeyed ρ t t') (names : List String) :
    allPatterns t' names = (allPatterns t names).map (List.map (Option.map (·.rekey ρ))) := by
  unfold allPatterns
  rw [patternsOf_of_rekeyed h]
  dsimp only
  cases Error.combine? (patternsOf t names).1 <;> rfl

theorem getD_map_rekey (sps : List (Option SharedPattern)) (i : Nat) :
    (sps.map (Option.map (·.rekey ρ))).getD i none = (sps.getD i none).map (·.rekey ρ) := by
  rw [List.getD_eq_getElem?_getD, List.getD_eq_getElem?_getD, List.getElem?_map]
  cases sps[i]? <;> rfl

/-- What commutes with a step commutes with going on from there. -/
theorem bind_of_commutes {α β : Type} {g : α → α} {g' : β → β} {k k' : α → Result β}
    (hk : ∀ a, k' (g a) = (k a).map g') (x : Result α) :
    x.map g >>= k' = (x >>= k).map g' := by
  cases x with
  | error e => rfl
  | ok a => exact hk a

theorem instr_of_rekeyed (h : Rekeyed ρ t t') (r : InstrRecord) :
    r.build t' = (r.build t).map (·.rekey ρ) := by
  unfold InstrRecord.build
  generalize r.kind = kind
  split
  all_goals try rfl
  -- an operation is looked up, which may fail; what is left looks up patterns
  · cases Op.ofName? r.op <;> rfl
  iterate 2
    rw [pattern_of_rekeyed h]
    refine bind_of_commutes (fun sp => ?_) _
    rfl
  all_goals
    rw [allPatterns_of_rekeyed h]
    refine bind_of_commutes (fun sps => ?_) _
    simp only [getD_map_rekey]
    rfl

theorem mapM_of_commutes {α β : Type} {f f' : α → Result β} {g : β → β}
    (hf : ∀ a, f' a = (f a).map g) : ∀ as : List α, as.mapM f' = (as.mapM f).map (List.map g)
  | [] => rfl
  | a :: as => by
    rw [List.mapM_cons, List.mapM_cons, hf, mapM_of_commutes hf as]
    cases f a with
    | error e => rfl
    | ok b => cases as.mapM f <;> rfl

theorem within_map {α β : Type} (context : String) (x : Result α) (g : α → β) :
    Result.within context (x.map g) = (Result.within context x).map g := by
  cases x with
  | ok a => rfl
  | error e => cases e <;> rfl

theorem function_of_rekeyed (h : Rekeyed ρ t t') (r : FunctionRecord) :
    r.build t' = (r.build t).map (·.rekey ρ) := by
  unfold FunctionRecord.build
  rw [← within_map, patternsOf_of_rekeyed h, patternsOf_of_rekeyed h]
  congr 1
  dsimp only
  cases Error.combine? ((patternsOf t r.inputs).1 ++ (patternsOf t r.outputs).1) with
  | some e => rfl
  | none =>
    dsimp only
    refine (congrArg (· >>= _) (mapM_of_commutes (g := Instr.rekey ρ) (fun x => ?_) _)).trans
      (bind_of_commutes (fun body => ?_) _)
    · rw [instr_of_rekeyed h, within_map]
    · rfl

/-- A routine is built from the one table as from the other, and is valid if the other is. -/
theorem routine_of_rekeyed (h : Rekeyed ρ t t') (r : FunctionRecord) :
    r.routine t' = (r.routine t).map (·.rekey ρ) := by
  unfold FunctionRecord.routine
  rw [function_of_rekeyed h]
  refine bind_of_commutes (fun f => ?_) _
  rw [Routine.validate_rekey]
  cases f.validate <;> rfl

/-! ## Two orders -/

/-- The programs have the same patterns and routines, but for the keys of the patterns. -/
def Same (p q : Program) : Prop :=
  ∃ ρ : Equiv.Perm Nat, Rekeyed ρ p.patterns q.patterns ∧ q.routines = p.routines.map (·.rekey ρ)

/-- Loading ends alike: with the same program, or with the same error. -/
inductive SameOutcome : Result Program → Result Program → Prop
  | ok {p q : Program} (h : p.Same q) : SameOutcome (.ok p) (.ok q)
  | error (e : Error) : SameOutcome (.error e) (.error e)

theorem SameOutcome.eq_of_error {e e' : Error} (h : SameOutcome (.error e) (.error e')) :
    e = e' := by
  cases h
  rfl

theorem SameOutcome.exists_of_ok {p : Program} {outcome : Result Program}
    (h : SameOutcome (.ok p) outcome) : ∃ q, outcome = .ok q ∧ p.Same q := by
  cases h with
  | ok hq => exact ⟨_, rfl, hq⟩

/-- How loading ends when the patterns are declared in the given order. -/
def loadInOrder (r : ProgramRecord) (next : Nat) (order : List (String × PatternRecord)) :
    Result Program :=
  ((ofRecord { r with patterns := order }).run next).1

theorem assemble_of_rekeyed {ρ : Equiv.Perm Nat} (h : Rekeyed ρ t t')
    (functions : List FunctionRecord) :
    SameOutcome (assemble functions t) (assemble functions t') := by
  unfold assemble
  rw [mapM_of_commutes (routine_of_rekeyed h) functions]
  cases functions.mapM (·.routine t) with
  | error e => exact .error e
  | ok routines => exact .ok ⟨ρ, h, rfl⟩

theorem fst_of_declaration {x : String × PatternRecord} {built : String × Pattern}
    (h : declaration x = .ok built) : built.1 = x.1 := by
  unfold declaration at h
  split_ifs at h
  · cases h
  · cases hbuild : x.2.build.within ("pattern " ++ x.1 ++ ": ") with
    | error e => rw [hbuild] at h; cases h
    | ok p => rw [hbuild] at h; cases h; rfl

/-- What the declarations declare that succeed. -/
def successes (entries : List (String × PatternRecord)) : List (String × Pattern) :=
  entries.filterMap fun x => (declaration x).toOption

theorem mapM_declaration_ok {entries : List (String × PatternRecord)}
    (h : ∀ x ∈ entries, ∀ e, declaration x ≠ .error e) :
    entries.mapM declaration = .ok (successes entries) ∧
      (successes entries).map Prod.fst = entries.map Prod.fst := by
  induction entries with
  | nil => exact ⟨rfl, rfl⟩
  | cons x entries ih =>
    obtain ⟨hmap, hnames⟩ := ih fun y hy => h y (List.mem_cons_of_mem _ hy)
    cases hx : declaration x with
    | error e => exact absurd hx (h x List.mem_cons_self e)
    | ok built =>
      have hcons : successes (x :: entries) = built :: successes entries := by
        rw [successes, List.filterMap_cons, hx]
        rfl
      rw [hcons, List.mapM_cons, hx, hmap, List.map_cons, List.map_cons, hnames,
        fst_of_declaration hx]
      exact ⟨rfl, rfl⟩

/-- If a declaration fails, loading ends with the error of one that fails. -/
theorem mapM_declaration_error {entries : List (String × PatternRecord)}
    {x : String × PatternRecord} {e : Error} (hx : x ∈ entries) (he : declaration x = .error e) :
    ∃ y ∈ entries, ∃ e', declaration y = .error e' ∧ entries.mapM declaration = .error e' := by
  induction entries with
  | nil => cases hx
  | cons y entries ih =>
    rw [List.mapM_cons]
    cases hy : declaration y with
    | error e' => exact ⟨y, List.mem_cons_self, e', hy, rfl⟩
    | ok built =>
      have hmem : x ∈ entries := by
        rcases List.mem_cons.1 hx with rfl | hx
        · rw [he] at hy; cases hy
        · exact hx
      obtain ⟨z, hz, e', hz', hmap⟩ := ih hmem
      refine ⟨z, List.mem_cons_of_mem _ hz, e', hz', ?_⟩
      rw [hmap]
      rfl

section Orders

variable {r : ProgramRecord} {next : Nat} {order order' : List (String × PatternRecord)}

theorem loadInOrder_eq (r : ProgramRecord) (next : Nat) (order : List (String × PatternRecord)) :
    loadInOrder r next order = (do
      let built ← order.mapM declaration
      assemble r.functions ((scalarName, .scalar) :: declared next built)) :=
  run_ofRecord _ next

/-- If all declarations succeed, their order does not matter. -/
theorem sameOutcome_of_perm (h : order.Perm order') (hnames : (order.map Prod.fst).Nodup)
    (hnext : Build.first ≤ next) (hok : ∀ x ∈ order, ∀ e, declaration x ≠ .error e) :
    SameOutcome (loadInOrder r next order) (loadInOrder r next order') := by
  obtain ⟨hmap, hfst⟩ := mapM_declaration_ok hok
  have hmap' := (mapM_declaration_ok fun x hx => hok x (h.mem_iff.2 hx)).1
  obtain ⟨ρ, hfix, hρ⟩ := exists_rekeyed_of_perm
    (h.filterMap fun x => (declaration x).toOption) next (hfst.symm ▸ hnames)
  rw [loadInOrder_eq, loadInOrder_eq, hmap, hmap']
  exact assemble_of_rekeyed (hρ.cons scalarName (hfix 0 (Nat.lt_of_lt_of_le Nat.zero_lt_one hnext)))
    r.functions

/-- If a declaration fails, loading ends with the error of one that fails. -/
theorem loadInOrder_error (r : ProgramRecord) (next : Nat) {x : String × PatternRecord} {e : Error}
    (hx : x ∈ order) (he : declaration x = .error e) :
    ∃ y ∈ order, ∃ e', declaration y = .error e' ∧ loadInOrder r next order = .error e' := by
  obtain ⟨y, hy, e', he', hmap⟩ := mapM_declaration_error hx he
  refine ⟨y, hy, e', he', ?_⟩
  rw [loadInOrder_eq, hmap]
  rfl

/-- In a program that can be loaded, no declaration fails. -/
theorem declaration_ne_error_of_loadInOrder {p : Program} (hp : loadInOrder r next order = .ok p) :
    ∀ x ∈ order, ∀ e, declaration x ≠ .error e := by
  intro x hx e he
  obtain ⟨-, -, e', -, hload⟩ := loadInOrder_error r next hx he
  rw [hload] at hp
  cases hp

/-- If the declarations that fail all fail with one error, their order does not matter. -/
theorem sameOutcome_of_one_error (h : order.Perm order') (hnames : (order.map Prod.fst).Nodup)
    (hnext : Build.first ≤ next) (hone : ∀ x ∈ order, ∀ y ∈ order, ∀ e e' : Error,
      declaration x = .error e → declaration y = .error e' → e = e') :
    SameOutcome (loadInOrder r next order) (loadInOrder r next order') := by
  by_cases hok : ∀ x ∈ order, ∀ e, declaration x ≠ .error e
  · exact sameOutcome_of_perm h hnames hnext hok
  · push Not at hok
    obtain ⟨x, hx, e, he⟩ := hok
    obtain ⟨y, hy, d, hd, hload⟩ := loadInOrder_error r next hx he
    obtain ⟨y', hy', d', hd', hload'⟩ := loadInOrder_error r next (h.mem_iff.1 hx) he
    obtain rfl := hone y hy y' (h.mem_iff.2 hy') d d' hd hd'
    rw [hload, hload']
    exact .error d

/-- The declaration that comes first is looked at first. -/
theorem loadInOrder_cons_error {x : String × PatternRecord} {e : Error}
    (he : declaration x = .error e) : loadInOrder r next (x :: order) = .error e := by
  rw [loadInOrder_eq, List.mapM_cons, he]
  rfl

end Orders

/-- The order of the declarations does not matter for a program that can be loaded: it can then be
loaded in any order, and is the same program. It does not matter at all exactly if the declarations
that fail all fail with one error; where two fail in different ways, the first one decides. -/
theorem loadInOrder_same_iff (r : ProgramRecord) (hnames : (r.patterns.map Prod.fst).Nodup)
    {next : Nat} (hnext : Build.first ≤ next) :
    (∀ (order order' : List (String × PatternRecord)) (p : Program), order.Perm r.patterns →
      order'.Perm r.patterns → loadInOrder r next order = .ok p →
        ∃ q, loadInOrder r next order' = .ok q ∧ p.Same q) ∧
    ((∀ order order' : List (String × PatternRecord), order.Perm r.patterns →
      order'.Perm r.patterns →
        SameOutcome (loadInOrder r next order) (loadInOrder r next order')) ↔
      ∀ x ∈ r.patterns, ∀ y ∈ r.patterns, ∀ e e' : Error, declaration x = .error e →
        declaration y = .error e' → e = e') := by
  have hnames' {order : List (String × PatternRecord)} (h : order.Perm r.patterns) :
      (order.map Prod.fst).Nodup := (h.map Prod.fst).nodup_iff.2 hnames
  refine ⟨fun order order' p h h' hp => ?_, fun hsame x hx y hy e e' he he' => ?_,
    fun hone order order' h h' => ?_⟩
  · have houtcome := sameOutcome_of_perm (r := r) (h.trans h'.symm) (hnames' h) hnext
      (declaration_ne_error_of_loadInOrder hp)
    rw [hp] at houtcome
    exact houtcome.exists_of_ok
  · -- each of the two is put in front
    obtain ⟨before, after, hsplit⟩ := List.append_of_mem hx
    obtain ⟨before', after', hsplit'⟩ := List.append_of_mem hy
    have houtcome := hsame (x :: (before ++ after)) (y :: (before' ++ after'))
      (hsplit ▸ List.perm_middle.symm) (hsplit' ▸ List.perm_middle.symm)
    rw [loadInOrder_cons_error he, loadInOrder_cons_error he'] at houtcome
    exact houtcome.eq_of_error
  · exact sameOutcome_of_one_error (h.trans h'.symm) (hnames' h) hnext fun x hx y hy =>
      hone x (h.mem_iff.1 hx) y (h.mem_iff.1 hy)

/-- A program whose two patterns are declared in either order. -/
theorem loadInOrder_same_iff_columns :
    let x : String × PatternRecord := ("x", { nrow := 2, ncol := 1 })
    let y : String × PatternRecord := ("y", { nrow := 1, ncol := 2 })
    let f : FunctionRecord := { name := "f", inputs := ["x", "y"], outputs := ["x"] }
    let r : ProgramRecord := { patterns := [x, y], functions := [f] }
    (r.patterns.map Prod.fst).Nodup ∧ Build.first ≤ 1 ∧
      ∃ p q, loadInOrder r 1 [x, y] = .ok p ∧ loadInOrder r 1 [y, x] = .ok q ∧ p.Same q := by
  intro x y f r
  have hnames : (r.patterns.map Prod.fst).Nodup := by decide
  have hok : (loadInOrder r 1 [x, y]).isOk = true := by cbv
  cases hp : loadInOrder r 1 [x, y] with
  | error e => rw [hp] at hok; cases hok
  | ok p =>
    obtain ⟨q, hq, hsame⟩ := (loadInOrder_same_iff r hnames (le_refl Build.first)).1 [x, y] [y, x] p
      (.refl _) (.swap x y []) hp
    exact ⟨hnames, le_refl _, p, q, rfl, hq, hsame⟩

/-- Two declarations of negative sizes: the one that comes first is reported. -/
theorem loadInOrder_depends_on_order :
    let a : String × PatternRecord := ("a", { nrow := -1 })
    let b : String × PatternRecord := ("b", { nrow := -1 })
    let r : ProgramRecord := { patterns := [a, b] }
    (r.patterns.map Prod.fst).Nodup ∧ [b, a].Perm r.patterns ∧
      loadInOrder r Build.first [a, b] =
        .error (.within "pattern a: " (.inconsistent (.negativeSize (-1) 0))) ∧
      loadInOrder r Build.first [b, a] =
        .error (.within "pattern b: " (.inconsistent (.negativeSize (-1) 0))) ∧
      ¬SameOutcome (loadInOrder r Build.first [a, b]) (loadInOrder r Build.first [b, a]) := by
  intro a b r
  have ha : loadInOrder r Build.first [a, b] =
      .error (.within "pattern a: " (.inconsistent (.negativeSize (-1) 0))) := by
    rfl
  have hb : loadInOrder r Build.first [b, a] =
      .error (.within "pattern b: " (.inconsistent (.negativeSize (-1) 0))) := by
    rfl
  refine ⟨by decide, .swap a b [], ha, hb, fun h => ?_⟩
  rw [ha, hb] at h
  simpa using h.eq_of_error

end Tangent.Program
