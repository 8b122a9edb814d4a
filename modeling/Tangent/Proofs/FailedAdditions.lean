import Mathlib
import Tangent.Proofs.Closed

/-!
# What a failed addition leaves behind

An addition that stops at an instruction is not undone: what the arguments and the instructions
before that one asked for stays registered, and nothing else does. Later additions and the generated
files can only depend on what a module lists (`Alike`), not on its log or on the keys by which it
knows its patterns: every emission takes modules that list the same to modules that list the same
(`Agree`). So a failed addition goes unnoticed if all that it asked for was there before
(`Request.AnsweredIn`). If something was not, then the source of a module with a routine is longer.
-/

namespace Tangent

open CodeModule

theorem OrderedSet.eq_of_toList {α : Type} {s t : OrderedSet α} (h : s.toList = t.toList) :
    s = t := by
  cases s
  cases t
  cases h
  rfl

namespace CodeModule

variable {κ : Nat → Pattern} {m m' : CodeModule} {α β : Type}

/-! ## Modules that list the same -/

namespace Pool

variable {p q : Pool α}

theorem find?_congr (hp : p.Sound) (hq : q.Sound) (hkind : q.kind = p.kind)
    (harrays : q.arrays = p.arrays) (v : List α) : q.find? v = p.find? v := by
  refine Option.ext fun i => ?_
  rw [find?_eq_some_iff hq, find?_eq_some_iff hp]
  simp only [Holds, bitsOf, hkind, harrays]

theorem add_congr (hp : p.Sound) (hq : q.Sound) (hkind : q.kind = p.kind)
    (harrays : q.arrays = p.arrays) (v : List α) :
    (q.add v).1 = (p.add v).1 ∧ (q.add v).2.arrays = (p.add v).2.arrays := by
  have hfind := find?_congr hp hq hkind harrays v
  rcases h : p.find? v with _ | i
  · rw [add_of_none h, add_of_none (hfind.trans h), harrays]
    exact ⟨rfl, rfl⟩
  · rw [add_of_some h, add_of_some (hfind.trans h)]
    exact ⟨rfl, harrays⟩

end Pool

/-- Two modules list the same. Their logs may differ, and so may the keys of their patterns. -/
structure Alike (m m' : CodeModule) : Prop where
  options : m'.options = m.options
  name : m'.name = m.name
  includes : m'.includes = m.includes
  support : m'.support = m.support
  supportText : m'.supportText = m.supportText
  integers : m'.integers.arrays = m.integers.arrays
  reals : m'.reals.arrays = m.reals.arrays
  externals : m'.externals = m.externals
  pieces : m'.pieces = m.pieces

namespace Alike

theorem addInclude (h : Alike m m') (file : Include) :
    Alike (m.addInclude file) (m'.addInclude file) := by
  unfold CodeModule.addInclude
  rw [h.includes]
  split
  · exact h
  · exact { h with includes := rfl }

theorem foldl {step : CodeModule → α → CodeModule}
    (hstep : ∀ {m m'} a, Alike m m' → Alike (step m a) (step m' a)) :
    ∀ (as : List α) {m m' : CodeModule}, Alike m m' → Alike (as.foldl step m) (as.foldl step m')
  | [], _, _, h => h
  | a :: as, _, _, h => foldl hstep as (hstep a h)

theorem defineOnce (h : Alike m m') (s : Support) :
    Alike (m.defineOnce s) (m'.defineOnce s) := by
  unfold CodeModule.defineOnce
  rw [h.support]
  split
  · exact h
  · have hincludes : Alike (s.includes.foldl (fun m file => m.addInclude { file }) m)
        (s.includes.foldl (fun m file => m.addInclude { file }) m') :=
      foldl (fun file h => h.addInclude { file }) s.includes h
    exact { hincludes with
      support := congrArg (OrderedSet.insert · s) hincludes.support
      supportText := congrArg (· ++ s.lines ++ [""]) hincludes.supportText }

theorem addSupport (h : Alike m m') (s : Support) :
    Alike (m.addSupport s) (m'.addSupport s) := by
  rw [addSupport_eq, addSupport_eq, h.support]
  split
  · exact h
  · exact foldl (fun s h => h.defineOnce s) s.withNeeds h

theorem addExternal (h : Alike m m') (f : External) :
    Alike (m.addExternal f) (m'.addExternal f) := by
  unfold CodeModule.addExternal
  rw [h.externals]
  split
  · exact h
  · exact { h with externals := rfl }

theorem sections (h : Alike m m') : m'.sections = m.sections := by
  rw [CodeModule.sections, h.pieces, CodeModule.sections]

/-- The files of a module are made from what it lists. -/
theorem generate (h : Alike m m') : m'.generate = m.generate := by
  simp only [CodeModule.generate, sourceLines, headerLines, stemLines, externalLines, printLines,
    allTableLines, supportLines, names, h.sections, h.options, h.name, h.includes, h.support,
    h.supportText, h.integers, h.reals, h.externals, h.pieces]

end Alike

/-- Modules that list the same, and whose pools are in order. -/
structure Twins (κ : Nat → Pattern) (m m' : CodeModule) : Prop extends Alike m m' where
  left : Pooled κ m
  right : Pooled κ m'

/-- What a registered pattern has for its table does not depend on its key. -/
theorem addPattern_eq (hm : Pooled κ m) {sp : SharedPattern} (hsp : κ sp.key = sp.pattern) :
    ∃ patterns records, m.addPattern sp = ((m.integers.add sp.pattern.compress).1,
      { m with integers := (m.integers.add sp.pattern.compress).2, patterns, records }) := by
  unfold addPattern
  split
  · next i hi =>
    have htable := hm.tables sp.key i hi
    rw [hsp] at htable
    rw [Pool.add_of_some ((Pool.find?_eq_some_iff hm.integers).2 ⟨_, htable, rfl⟩)]
    exact ⟨_, _, rfl⟩
  · exact ⟨_, _, rfl⟩

namespace Twins

theorem refl (hm : Pooled κ m) : Twins κ m m :=
  ⟨⟨rfl, rfl, rfl, rfl, rfl, rfl, rfl, rfl, rfl⟩, hm, hm⟩

theorem trans {m'' : CodeModule} (h : Twins κ m m') (h' : Twins κ m' m'') : Twins κ m m'' where
  options := h'.options.trans h.options
  name := h'.name.trans h.name
  includes := h'.includes.trans h.includes
  support := h'.support.trans h.support
  supportText := h'.supportText.trans h.supportText
  integers := h'.integers.trans h.integers
  reals := h'.reals.trans h.reals
  externals := h'.externals.trans h.externals
  pieces := h'.pieces.trans h.pieces
  left := h.left
  right := h'.right

theorem debug (h : Twins κ m m') (message : String) (fields : List (String × Log.Value)) :
    Twins κ (m.debug message fields) (m'.debug message fields) :=
  ⟨{ h.toAlike with }, { h.left with }, { h.right with }⟩

theorem append (h : Twins κ m m') (piece : Piece) : Twins κ (m.append piece) (m'.append piece) :=
  ⟨{ h.toAlike with pieces := congrArg (· ++ [piece]) h.pieces }, { h.left with },
    { h.right with }⟩

theorem find?_reals (h : Twins κ m m') (words : List UInt64) :
    m'.reals.find? words = m.reals.find? words :=
  Pool.find?_congr h.left.reals h.right.reals (h.right.realKind.trans h.left.realKind.symm)
    h.reals words

theorem addPattern (h : Twins κ m m') {sp : SharedPattern} (hsp : κ sp.key = sp.pattern) :
    (m'.addPattern sp).1 = (m.addPattern sp).1 ∧
      Twins κ (m.addPattern sp).2 (m'.addPattern sp).2 := by
  have hpooled := h.left.addPattern hsp
  have hpooled' := h.right.addPattern hsp
  obtain ⟨hfst, harrays⟩ := Pool.add_congr h.left.integers h.right.integers
    (h.right.integerKind.trans h.left.integerKind.symm) h.integers sp.pattern.compress
  obtain ⟨_, _, heq⟩ := addPattern_eq h.left hsp
  obtain ⟨_, _, heq'⟩ := addPattern_eq h.right hsp
  rw [heq] at hpooled ⊢
  rw [heq'] at hpooled' ⊢
  exact ⟨hfst, { h.toAlike with integers := harrays, left := hpooled, right := hpooled' }⟩

theorem addWords (h : Twins κ m m') (words : List UInt64) :
    (m'.addWords words).1 = (m.addWords words).1 ∧
      Twins κ (m.addWords words).2 (m'.addWords words).2 := by
  have hpooled : Pooled κ (m.addWords words).2 :=
    Request.pooled (r := .constant words) h.left trivial
  have hpooled' : Pooled κ (m'.addWords words).2 :=
    Request.pooled (r := .constant words) h.right trivial
  obtain ⟨hfst, harrays⟩ := Pool.add_congr h.left.reals h.right.reals
    (h.right.realKind.trans h.left.realKind.symm) h.reals words
  obtain ⟨_, heq⟩ := addWords_eq m words
  obtain ⟨_, heq'⟩ := addWords_eq m' words
  rw [heq] at hpooled ⊢
  rw [heq'] at hpooled' ⊢
  exact ⟨hfst, { h.toAlike with reals := harrays, left := hpooled, right := hpooled' }⟩

theorem addSupport (h : Twins κ m m') (s : Support) :
    Twins κ (m.addSupport s) (m'.addSupport s) :=
  ⟨h.toAlike.addSupport s, Request.pooled (r := .support s) h.left trivial,
    Request.pooled (r := .support s) h.right trivial⟩

theorem addExternal (h : Twins κ m m') (f : External) :
    Twins κ (m.addExternal f) (m'.addExternal f) :=
  ⟨h.toAlike.addExternal f, Request.pooled (r := .external f) h.left trivial,
    Request.pooled (r := .external f) h.right trivial⟩

end Twins

/-! ## Emissions that cannot tell them apart -/

/-- Two emissions give the same for modules that list the same, and leave such modules. -/
def Agree (κ : Nat → Pattern) (x y : Emit α) : Prop :=
  ∀ ⦃m m'⦄, Twins κ m m' →
    (y.run.run m').1 = (x.run.run m).1 ∧ Twins κ (x.run.run m).2 (y.run.run m').2

namespace Agree

theorem result (r : Result α) : Agree κ (liftM r : Emit α) (liftM r) := by
  intro m m' h
  rw [run_result, run_result]
  exact ⟨rfl, h⟩

theorem pure (a : α) : Agree κ (Pure.pure a : Emit α) (Pure.pure a) :=
  fun _ _ h => ⟨rfl, h⟩

theorem throw (e : Error) : Agree κ (MonadExcept.throw e : Emit α) (MonadExcept.throw e) :=
  fun _ _ h => ⟨rfl, h⟩

theorem throw_bind (e : Error) (g g' : α → Emit β) :
    Agree κ (MonadExcept.throw e >>= g) (MonadExcept.throw e >>= g') :=
  fun _ _ h => ⟨rfl, h⟩

theorem bind {x y : Emit α} {g g' : α → Emit β} (hx : Agree κ x y)
    (hg : ∀ a, Agree κ (g a) (g' a)) : Agree κ (x >>= g) (y >>= g') := by
  intro m m' h
  obtain ⟨hfst, hsnd⟩ := hx h
  rcases hrun : (x.run.run m).1 with e | a
  · rw [run_bind_error (Prod.ext hrun rfl), run_bind_error (Prod.ext (hfst.trans hrun) rfl)]
    exact ⟨rfl, hsnd⟩
  · rw [run_bind_ok (Prod.ext hrun rfl), run_bind_ok (Prod.ext (hfst.trans hrun) rfl)]
    exact hg a hsnd

theorem ite {c : Prop} [Decidable c] {x x' y y' : Emit α} (hx : Agree κ x x')
    (hy : Agree κ y y') : Agree κ (if c then x else y) (if c then x' else y') := by
  split
  · exact hx
  · exact hy

theorem get_bind {g : CodeModule → Emit α}
    (hg : ∀ m m', Twins κ m m' → Agree κ (g m) (g m')) : Agree κ (get >>= g) (get >>= g) :=
  fun m m' h => hg m m' h h

theorem modify {step : CodeModule → CodeModule}
    (hstep : ∀ m m', Twins κ m m' → Twins κ (step m) (step m')) :
    Agree κ (modify step : Emit Unit) (modify step) :=
  fun m m' h => ⟨rfl, hstep m m' h⟩

theorem modifyGet {step : CodeModule → α × CodeModule}
    (hstep : ∀ m m', Twins κ m m' →
      (step m').1 = (step m).1 ∧ Twins κ (step m).2 (step m').2) :
    Agree κ (modifyGet step : Emit α) (modifyGet step) :=
  fun m m' h => ⟨congrArg Except.ok (hstep m m' h).1, (hstep m m' h).2⟩

theorem adapt {x y : Emit α} (h : Agree κ x y) (context : Error → Error) :
    Agree κ (x.adapt context) (y.adapt context) := by
  intro m m' hm
  rw [run_adapt, run_adapt, (h hm).1]
  exact ⟨rfl, (h hm).2⟩

theorem mapM {g : α → Emit β} :
    ∀ {as : List α}, (∀ a ∈ as, Agree κ (g a) (g a)) → Agree κ (as.mapM g) (as.mapM g)
  | [], _ => pure []
  | a :: as, h => by
    obtain ⟨ha, has⟩ := List.forall_mem_cons.1 h
    rw [List.mapM_cons]
    exact ha.bind fun b => (mapM has).bind fun bs => pure (b :: bs)

theorem needSupport (s : Support) : Agree κ (needSupport s) (needSupport s) :=
  modify fun _ _ h => h.addSupport s

theorem forM_needSupport :
    ∀ supports : List Support, Agree κ (supports.forM CodeModule.needSupport)
      (supports.forM CodeModule.needSupport)
  | [] => pure ()
  | s :: supports => (needSupport s).bind fun _ => forM_needSupport supports

theorem callSupport (slot : Option Int64) (s : Support) (args : List Arg) :
    Agree κ (callSupport slot s args) (callSupport slot s args) :=
  (needSupport s).bind fun _ => pure _

theorem needPattern {sp : Option SharedPattern} (hsp : ∀ p ∈ sp.toList, κ p.key = p.pattern) :
    Agree κ (needPattern sp) (needPattern sp) := by
  rcases sp with _ | p
  · exact throw _
  · have hp := hsp p (List.mem_singleton_self p)
    exact (modifyGet fun _ _ h => h.addPattern hp).bind fun i => pure (Arg.pattern i)

/-- A statement does not depend on the module beyond what it lists. -/
theorem emit {instr : Instr Float} (hkeys : ∀ sp ∈ instr.operands, κ sp.key = sp.pattern) :
    Agree κ instr.emit instr.emit := by
  cases instr with
  | input _ _ _ | output _ _ _ | const _ _ | gather _ _ | scatter _ _ => exact pure _
  | fill _ _ _ | copy _ _ _ | swap _ _ _ | scale _ _ _ | axpy _ _ _ _ | dot _ _ _ _
  | reduce _ _ _ _ => exact callSupport _ _ _
  | apply c slot x y =>
    rcases hop : c.op? with _ | op
    · simp only [Instr.emit, hop]
      exact throw _
    · cases op with
      | unary u =>
        simp only [Instr.emit, hop]
        rcases Support.ofHelper? (Op.unary u).helper with _ | s
        · exact pure _
        · exact (needSupport s).bind fun _ => pure _
      | binary b =>
        simp only [Instr.emit, hop]
        rcases Support.ofHelper? (Op.binary b).helper with _ | s
        · exact pure _
        · exact (needSupport s).bind fun _ => pure _
      | _ =>
        simp only [Instr.emit, hop]
        exact throw _
  | constArray offset values =>
    exact (needSupport .copy).bind fun _ =>
      (modifyGet fun _ _ h => h.addWords (wordsOf values)).bind fun _ => pure _
  | constElement slot values index =>
    refine get_bind fun m m' h => ?_
    rw [getConstant, getConstant, getWords, getWords, h.find?_reals, h.name]
    exact (result _).bind fun _ => pure _
  | bilinear _ _ sp _ _ =>
    exact (needSupport .bilin).bind fun _ => (needPattern hkeys).bind fun _ => pure _
  | rank1 _ sp _ _ _ =>
    exact (needSupport .rank1).bind fun _ => (needPattern hkeys).bind fun _ => pure _
  | project source sp target sq temporary =>
    have hkeys := List.forall_mem_append.1 hkeys
    simp only [Instr.emit]
    split
    · exact callSupport _ _ _
    · exact (needSupport .project).bind fun _ => (needPattern hkeys.1).bind fun _ =>
        (needPattern hkeys.2).bind fun _ => pure _
  | transpose _ sp _ sq _ =>
    have hkeys := List.forall_mem_append.1 hkeys
    exact (needSupport .trans).bind fun _ => (needPattern hkeys.1).bind fun _ =>
      (needPattern hkeys.2).bind fun _ => pure _
  | multiply _ sp _ sq _ sr _ _ =>
    have hkeys := List.forall_mem_append.1 hkeys
    have hfactors := List.forall_mem_append.1 hkeys.1
    exact (needSupport .mtimes).bind fun _ => (needPattern hfactors.1).bind fun _ =>
      (needPattern hfactors.2).bind fun _ => (needPattern hkeys.2).bind fun _ => pure _
  | external slot name args =>
    exact (modify fun _ _ h => h.addExternal _).bind fun _ => pure _

theorem argumentTables {patterns : List (Option SharedPattern)}
    (hkeys : ∀ sp ∈ patterns.filterMap id, κ sp.key = sp.pattern) :
    Agree κ (argumentTables patterns) (argumentTables patterns) :=
  mapM fun sp hsp => modifyGet fun _ _ h => h.addPattern (hkeys sp hsp)

theorem add {f : Routine Float} (hf : f.KeyedBy κ) : Agree κ (add f) (add f) := by
  obtain ⟨harguments, hoperands⟩ := List.forall_mem_append.1 hf
  rw [List.filterMap_append] at harguments
  obtain ⟨hinputs, houtputs⟩ := List.forall_mem_append.1 harguments
  refine (result _).bind fun _ => get_bind fun m m' h => ?_
  rw [h.sections, h.name, h.options]
  refine ite (throw_bind _ _ _) ((argumentTables hinputs).bind fun _ =>
    (argumentTables houtputs).bind fun _ => (mapM ?_).bind fun stmts =>
    (modify fun _ _ h => h.debug _ _).bind fun _ => ite ?_ (ite ?_ ?_))
  · rintro ⟨instr, i⟩ hmem
    have hinstr : instr ∈ f.body := (List.mem_zipIdx' hmem).2 ▸ List.getElem_mem _
    exact (emit fun sp hsp => hoperands sp (List.mem_flatMap.2 ⟨instr, hinstr, hsp⟩)).adapt _
  · exact (modify fun _ _ h => h.append _).bind fun _ => throw_bind _ _ _
  · exact (forM_needSupport _).bind fun _ => modify fun _ _ h => h.append _
  · exact modify fun _ _ h => h.append _

end Agree

/-- The results of adding some routines, and the files after that. -/
def observe (fs : List (Routine Float)) (m : CodeModule) : List (Result Unit) × Result Generated :=
  (((addEach fs).run m).1, ((addEach fs).run m).2.generate)

theorem observe_cons (f : Routine Float) (fs : List (Routine Float)) (m : CodeModule) :
    observe (f :: fs) m = (((add f).run.run m).1 :: (observe fs ((add f).run.run m).2).1,
      (observe fs ((add f).run.run m).2).2) := by
  rw [observe, addEach_cons]
  rfl

/-- Nothing that happens later tells modules apart that list the same. -/
theorem Twins.observe_eq {fs : List (Routine Float)} (h : Twins κ m m')
    (hfs : ∀ f ∈ fs, f.KeyedBy κ) : observe fs m' = observe fs m := by
  induction fs generalizing m m' with
  | nil => exact congrArg (Prod.mk []) h.toAlike.generate
  | cons f fs ih =>
    obtain ⟨hf, hfs⟩ := List.forall_mem_cons.1 hfs
    obtain ⟨hfirst, htwins⟩ := Agree.add hf h
    rw [observe_cons, observe_cons, hfirst, ih htwins hfs]

/-! ## Requests that change nothing -/

/-- What is asked for is there already. -/
def Request.AnsweredIn (m : CodeModule) : Request → Prop
  | support s => s ∈ m.support
  | pattern sp => sp.pattern.compress ∈ m.integers.arrays
  | constant words => ∃ i, m.reals.Holds i words
  | external f => f ∈ m.externals

namespace Request

theorem answeredIn_register (hm : Pooled κ m) :
    ∀ {r : Request}, r.KeyedBy κ → r.AnsweredIn (r.register m)
  | support s, _ => mem_support_addSupport m s
  | pattern sp, hsp => by
    have htable := (hm.addPattern hsp).tables sp.key _ (patternTable?_addPattern m sp)
    rw [show κ sp.key = sp.pattern from hsp] at htable
    exact List.mem_of_getElem? htable
  | constant words, _ =>
    ⟨_, (Pool.find?_eq_some_iff (sound_reals hm.reals (.constant words))).1
      (find?_addWords hm.reals words)⟩
  | external f, _ => mem_externals_addExternal m f

theorem AnsweredIn.mono (h : Extends m m') : ∀ {r : Request}, r.AnsweredIn m → r.AnsweredIn m'
  | support _, hs => h.support.subset hs
  | pattern _, hsp => h.integers.subset hsp
  | constant _, ⟨i, hi⟩ => ⟨i, hi.mono h.realKind h.reals⟩
  | external _, hf => h.externals.subset hf

theorem AnsweredIn.of_twins (h : Twins κ m m') :
    ∀ {r : Request}, r.AnsweredIn m' → r.AnsweredIn m
  | support _, hs => by rwa [AnsweredIn, ← h.support]
  | pattern _, hsp => by rwa [AnsweredIn, ← h.integers]
  | constant _, ⟨i, hi⟩ => ⟨i, hi.mono (h.left.realKind.trans h.right.realKind.symm)
      (h.reals ▸ List.prefix_rfl)⟩
  | external _, hf => by rwa [AnsweredIn, ← h.externals]

theorem twins_register (hm : Pooled κ m) :
    ∀ {r : Request}, r.KeyedBy κ → r.AnsweredIn m → Twins κ m (r.register m)
  | support s, _, hs => by
    rw [register, addSupport, if_pos (show s ∈ m.support from hs)]
    exact .refl hm
  | pattern sp, hkey, hsp => by
    have hpooled := hm.addPattern hkey
    obtain ⟨i, hi⟩ := List.getElem?_of_mem hsp
    have hfind := (Pool.find?_eq_some_iff hm.integers).2 ⟨_, hi, rfl⟩
    obtain ⟨_, _, heq⟩ := addPattern_eq hm hkey
    rw [Pool.add_of_some hfind] at heq
    rw [register]
    rw [heq] at hpooled ⊢
    exact { Twins.refl hm with right := hpooled }
  | constant words, _, ⟨i, hi⟩ => by
    rw [register, addWords, (Pool.find?_eq_some_iff hm.reals).2 hi]
    exact .refl hm
  | external f, _, hf => by
    rw [register, addExternal, if_pos (show f ∈ m.externals from hf)]
    exact .refl hm

end Request

theorem answeredIn_register (hm : Pooled κ m) {rs : List Request} (hrs : ∀ r ∈ rs, r.KeyedBy κ) :
    ∀ r ∈ rs, r.AnsweredIn (m.register rs) := by
  intro r hr
  obtain ⟨before, after, rfl⟩ := List.append_of_mem hr
  have hbefore : Pooled κ (m.register before) :=
    hm.register fun r hr => hrs r (List.mem_append_left _ hr)
  rw [register_append]
  exact (Request.answeredIn_register hbefore (hrs r hr)).mono (extends_register _ after)

/-- Registering changes what a module lists exactly if something is asked for that is not there. -/
theorem alike_register_iff (hm : Pooled κ m) {rs : List Request} (hrs : ∀ r ∈ rs, r.KeyedBy κ) :
    Alike m (m.register rs) ↔ ∀ r ∈ rs, r.AnsweredIn m := by
  constructor
  · intro h r hr
    exact (answeredIn_register hm hrs r hr).of_twins ⟨h, hm, hm.register hrs⟩
  · intro h
    suffices Twins κ m (m.register rs) from this.toAlike
    induction rs generalizing m with
    | nil => exact .refl hm
    | cons r rs ih =>
      obtain ⟨hr, hrs⟩ := List.forall_mem_cons.1 hrs
      obtain ⟨hanswered, h⟩ := List.forall_mem_cons.1 h
      have hfirst := Request.twins_register hm hr hanswered
      exact hfirst.trans
        (ih hfirst.right hrs fun r hr => (h r hr).mono (Request.extends_register m _))

/-! ## The length of the source -/

/-- The length of some lines as text. -/
def weight (lines : List String) : Nat :=
  (textOfLines lines).length

theorem weight_eq_sum (lines : List String) :
    weight lines = (lines.map fun line => line.length + 1).sum := by
  rw [weight, textOfLines, String.length_join, List.map_map]
  exact congrArg List.sum (List.map_congr_left fun line _ => String.length_append line "\n")

@[simp]
theorem weight_append (lines lines' : List String) :
    weight (lines ++ lines') = weight lines + weight lines' := by
  simp [weight_eq_sum]

theorem weight_pos {lines : List String} (h : lines ≠ []) : 0 < weight lines := by
  obtain ⟨line, rest, rfl⟩ := List.exists_cons_of_ne_nil h
  simp [weight_eq_sum]

theorem weight_perm {lines lines' : List String} (h : lines.Perm lines') :
    weight lines = weight lines' := by
  rw [weight_eq_sum, weight_eq_sum]
  exact (h.map _).sum_eq

/-- A list that is longer is written as a longer text. -/
theorem weight_flatMap {as as' : List α} (h : as <+: as') {g : α → List String}
    (hg : ∀ a, g a ≠ []) : weight (as.flatMap g) ≤ weight (as'.flatMap g) ∧
      (weight (as'.flatMap g) ≤ weight (as.flatMap g) → as' = as) := by
  obtain ⟨rest, rfl⟩ := h
  rw [List.flatMap_append, weight_append]
  refine ⟨Nat.le_add_right _ _, fun hle => ?_⟩
  cases rest with
  | nil => exact List.append_nil as
  | cons a rest =>
    have hpos := weight_pos (hg a)
    rw [List.flatMap_cons, weight_append] at hle
    omega

/-- The same with a heading, which an empty list does not have. -/
theorem weight_headed {as as' : List α} (h : as <+: as') {g : α → List String}
    (hg : ∀ a, g a ≠ []) (n : Nat) :
    (weight (as.flatMap g) + if as.isEmpty then 0 else n) ≤
        (weight (as'.flatMap g) + if as'.isEmpty then 0 else n) ∧
      ((weight (as'.flatMap g) + if as'.isEmpty then 0 else n) ≤
        (weight (as.flatMap g) + if as.isEmpty then 0 else n) → as' = as) := by
  obtain ⟨hle, heq⟩ := weight_flatMap h hg
  rcases as with _ | ⟨a, as⟩
  · refine ⟨Nat.zero_le _, fun hle' => heq ?_⟩
    exact (Nat.le_add_right _ _).trans hle'
  · obtain ⟨rest, rfl⟩ := h
    exact ⟨Nat.add_le_add_right hle n, fun hle' => heq (Nat.le_of_add_le_add_right hle')⟩

/-- Sorting the declarations does not change the length of their text. -/
theorem weight_externalLines (m : CodeModule) : weight m.externalLines =
    weight (m.externals.flatMap fun f => [exposed m.options f.declaration]) +
      if m.externals.isEmpty then 0 else weight (["/* External functions */"] ++ [""]) := by
  unfold externalLines
  split
  · next h =>
    rw [List.isEmpty_iff.1 h]
    rfl
  · have hsorted := weight_perm ((List.mergeSort_perm (m.externals.map (·.declaration))
      fun a b => a ≤ b).map (exposed m.options))
    rw [List.map_map] at hsorted
    simp only [weight_append, hsorted, ← List.map_eq_flatMap, Function.comp_def]
    omega

theorem weight_supportLines (hm : m.SupportWritten) : weight m.supportLines =
    weight (m.support.toList.flatMap fun s => s.lines ++ [""]) +
      if m.support.toList.isEmpty then 0 else weight [""] := by
  rw [supportLines, hm.1, weight_append, apply_ite weight]
  rfl

theorem Extends.weight_printLines (h : Extends m m') :
    weight m.printLines ≤ weight m'.printLines := by
  unfold printLines
  rw [h.options]
  by_cases hprint : (m.options.withMain || decide (Support.printme ∈ m.support)) = true
  · have hprint' : (m.options.withMain || decide (Support.printme ∈ m'.support)) = true := by
      simp only [Bool.or_eq_true, decide_eq_true_eq] at hprint ⊢
      exact hprint.imp_right fun hmem => h.support.subset hmem
    rw [if_pos hprint, if_pos hprint']
  · rw [if_neg hprint]
    exact Nat.zero_le _

/-- The tables of some arrays. -/
def tablesOf (type : String) (name : Nat → String) (text : α → List String) (as : List α) :
    List String :=
  as.zipIdx.flatMap fun table => tableLines type (name table.2) (text table.1)

theorem weight_allTableLines (m : CodeModule) : weight m.allTableLines =
    weight (tablesOf "int" patternTable (·.map toString) m.integers.arrays) +
      weight (tablesOf "real_t" realTable (·.map fun w => literal (.ofBits w)) m.reals.arrays) :=
  weight_append _ _

theorem weight_tablesOf {as as' : List α} (h : as <+: as') (type : String) (name : Nat → String)
    (text : α → List String) :
    weight (tablesOf type name text as) ≤ weight (tablesOf type name text as') ∧
      (weight (tablesOf type name text as') ≤ weight (tablesOf type name text as) → as' = as) := by
  have hzip : as.zipIdx <+: as'.zipIdx := by
    obtain ⟨rest, rfl⟩ := h
    rw [List.zipIdx_append]
    exact List.prefix_append _ _
  obtain ⟨hle, heq⟩ := weight_flatMap hzip
    (g := fun table => tableLines type (name table.2) (text table.1))
    fun _ => List.cons_ne_nil _ _
  refine ⟨hle, fun hle' => ?_⟩
  have hfst := congrArg (List.map Prod.fst) (heq hle')
  rwa [List.zipIdx_map_fst, List.zipIdx_map_fst] at hfst

/-- If the routines are the same, then the source is longer if anything else is new. -/
theorem Extends.alike_of_generate (h : Extends m m') (hm : m.SupportWritten)
    (hpieces : m'.pieces = m.pieces) (hne : m.sections ≠ [])
    (hgenerate : m'.generate = m.generate) : Alike m m' := by
  have hsections : m'.sections = m.sections := by rw [sections, hpieces, sections]
  have htext : m'.routineText = m.routineText := by
    simp only [routineText, names, hsections, hpieces, h.options]
  have hstem : m'.stemLines = m.stemLines := by rw [stemLines, stemLines, h.options, h.name]
  obtain ⟨g, hg⟩ : ∃ g, m.generate = .ok g :=
    ⟨_, by rw [generate, List.isEmpty_eq_false_iff.2 hne]; rfl⟩
  have hsource : weight (m'.preamble ++ m'.routineText) = weight (m.preamble ++ m.routineText) := by
    rw [weight, weight, ← source_of_generate hg, ← source_of_generate (hgenerate.trans hg)]
  have hm' := h.supportWritten hm
  -- No part has become shorter, so none has become longer.
  obtain ⟨hincludes, includes⟩ := weight_flatMap h.includes (g := fun file => file.lines) (by
    rintro ⟨_, _ | _⟩ <;> exact List.cons_ne_nil _ _)
  obtain ⟨hexternals, externals⟩ := weight_headed h.externals
    (g := fun f => [exposed m.options f.declaration]) (fun _ => List.cons_ne_nil _ _)
    (weight (["/* External functions */"] ++ [""]))
  obtain ⟨hsupport, support⟩ := weight_headed h.support
    (g := fun s => s.lines ++ [""]) (fun _ => by simp) (weight [""])
  obtain ⟨hintegers, integers⟩ := weight_tablesOf h.integers "int" patternTable (·.map toString)
  obtain ⟨hreals, reals⟩ := weight_tablesOf h.reals "real_t" realTable
    (·.map fun w => literal (.ofBits w))
  have hprint := h.weight_printLines
  simp only [preamble, weight_append, weight_externalLines, weight_allTableLines,
    weight_supportLines hm, weight_supportLines hm', hstem, htext, h.options]
    at hsource hexternals externals
  have hsame : m'.support = m.support := OrderedSet.eq_of_toList (support (by omega))
  refine ⟨h.options, h.name, OrderedSet.eq_of_toList (includes ?_), hsame,
    by rw [hm'.1, hsame, hm.1], integers ?_, reals ?_, externals ?_, hpieces⟩
  all_goals omega

/-! ## Failed additions -/

/-- Adding a routine fails with an error after some requests have been answered. -/
inductive FailsAfter (f : Routine Float) (m : CodeModule) : List Request → Error → Prop
  | invalid {e : Error} (hf : f.validate = .error e) : FailsAfter f m [] e
  | taken (hname : m.sections.any (·.routine.name = f.name)) :
    FailsAfter f m [] (.issue (.alreadyDefined f.name m.name))
  | unregistered {before after : List (Instr Float)} {slot index : Int64} {values : List Float}
    (hbody : f.body = before ++ .constElement slot values index :: after)
    (hfind : (m.register (f.argumentRequests ++ before.flatMap Instr.requests)).reals.find?
      (wordsOf values) = none) :
    FailsAfter f m (f.argumentRequests ++ before.flatMap Instr.requests)
      (.within (f.instrContext before.length)
        (.missing (.registeredConstant (valuesText values) m.name)))

variable {f : Routine Float} {e : Error} {rs : List Request}

theorem Outcome.failsAfter (h : Outcome f m (.error e) m') (he : e.fault? = none) :
    ∃ rs, FailsAfter f m rs e ∧ m' = m.register rs := by
  cases h with
  | invalid hf => exact ⟨[], .invalid hf, rfl⟩
  | taken _ hname => exact ⟨[], .taken hname, rfl⟩
  | unregistered _ _ hbody hfind => exact ⟨_, .unregistered hbody hfind, rfl⟩
  | overlong => cases he

theorem FailsAfter.keyedBy (h : FailsAfter f m rs e) (hf : f.KeyedBy κ) :
    ∀ r ∈ rs, r.KeyedBy κ := by
  cases h with
  | invalid | taken => simp
  | unregistered hbody => exact hf.keyedBy_requests (by simp [hbody])

/-! ## An array that a failed addition leaves -/

theorem Request.mem_reals_register {v : List UInt64} :
    ∀ {r : Request}, v ∈ (r.register m).reals.arrays → v ∈ m.reals.arrays ∨ r = .constant v
  | support s, hv => by
    obtain ⟨_, _, _, _, h⟩ := sameTables_addSupport m s
    rw [register, h] at hv
    exact .inl hv
  | pattern sp, hv => by
    rw [register, addPattern] at hv
    split at hv
    · exact .inl hv
    · exact .inl hv
  | constant words, hv => by
    obtain ⟨_, h⟩ := addWords_eq m words
    rw [register, h] at hv
    change v ∈ (m.reals.add words).2.arrays at hv
    rcases hfind : m.reals.find? words with _ | i
    · rw [Pool.add_of_none hfind] at hv
      rcases List.mem_append.1 hv with hv | hv
      · exact .inl hv
      · exact .inr (congrArg _ (List.mem_singleton.1 hv).symm)
    · rw [Pool.add_of_some hfind] at hv
      exact .inl hv
  | external g, hv => by
    rw [register, addExternal] at hv
    split at hv
    · exact .inl hv
    · exact .inl hv

/-- Every array of a module was asked for. -/
theorem mem_reals_register {v : List UInt64} (hv : v ∈ (m.register rs).reals.arrays) :
    v ∈ m.reals.arrays ∨ .constant v ∈ rs := by
  induction rs generalizing m with
  | nil => exact .inl hv
  | cons r rs ih =>
    rcases ih hv with hv | hv
    · refine (Request.mem_reals_register hv).imp_right ?_
      rintro rfl
      exact List.mem_cons_self
    · exact .inr (List.mem_cons_of_mem r hv)

theorem Outcome.mem_reals {r : Result Unit} (h : Outcome f m r m') {v : List UInt64}
    (hv : v ∈ m'.reals.arrays) : v ∈ m.reals.arrays ∨ .constant v ∈ f.requests := by
  cases h with
  | invalid | taken => exact .inl hv
  | unregistered _ _ hbody =>
    refine (mem_reals_register hv).imp_right fun hmem => ?_
    rw [Routine.requests, hbody, List.flatMap_append, ← List.append_assoc]
    exact List.mem_append_left _ hmem
  | overlong => exact mem_reals_register (m := m) hv
  | added =>
    have hmex : .constant v ∉ mexRequests m.options := by
      rw [mexRequests]
      split <;> simp
    exact mem_reals_register (m := m) ((mem_reals_register hv).resolve_right hmex)

/-- The arrays whose elements a routine reads are registered. -/
theorem Section.WrittenIn.holds {code : Section} (h : code.WrittenIn m) (hm : m.reals.Sound)
    {slot index : Int64} {values : List Float}
    (hread : .constElement slot values index ∈ code.routine.body) :
    ∃ i, m.reals.Holds i (wordsOf values) := by
  obtain ⟨k, hk, hget⟩ := List.getElem_of_mem hread
  have hstmt := h.stmts.get hk (h.stmts.length_eq ▸ hk)
  rw [List.get_eq_getElem, hget] at hstmt
  obtain ⟨read, _, hread, -, -⟩ := List.forall₂_cons_left_iff.1 hstmt.constants
  exact ⟨read.1, (Pool.find?_eq_some_iff hm).1 hread.1⟩

/-- A valid routine that reads an array of a length that no other array has cannot be added. -/
theorem exists_failsAfter (hm : m.reals.Sound) (hf : f.validate = .ok ())
    (hname : ¬m.sections.any (·.routine.name = f.name)) (hscalars : f.scalars ≤ nameCapacity)
    {slot index : Int64} {values : List Float} (hread : .constElement slot values index ∈ f.body)
    (hlength : ∀ v, v ∈ m.reals.arrays ∨ .constant v ∈ f.requests → v.length ≠ values.length) :
    ∃ rs e, FailsAfter f m rs e ∧ e.fault? = none ∧
      (add f).run.run m = (.error e, m.register rs) := by
  suffices ∀ {r m'}, Outcome f m r m' → ∃ rs e, FailsAfter f m rs e ∧ e.fault? = none ∧
      (r, m') = (.error e, m.register rs) from this (outcome_add hm f)
  intro r m' houtcome
  cases houtcome with
  | invalid he =>
    rw [hf] at he
    cases he
  | taken _ h => exact absurd h hname
  | unregistered _ _ hbody hfind => exact ⟨_, _, .unregistered hbody hfind, rfl, rfl⟩
  | overlong _ _ h => exact absurd h (Int64.not_lt.2 hscalars)
  | added hf hname hroutine hcode =>
    have hadded := Outcome.added hf hname hroutine hcode
    have hreals := sound_reals_register (m := written f m) (sound_reals_register hm f.requests)
      (mexRequests m.options)
    rw [← hroutine] at hread
    obtain ⟨i, v, hv, hbits⟩ := hcode.holds hreals hread
    have hlen : v.length = values.length := by
      simpa [Pool.bitsOf, wordsOf] using congrArg List.length hbits
    exact (hlength v (hadded.mem_reals (List.mem_of_getElem? hv)) hlen).elim

theorem reals_of_create {o : Options} {name parent : String} (h : create o name parent = .ok m) :
    m.reals.arrays = [] := by
  obtain ⟨_, _, _, _, hm⟩ := SameTables.foldl sameTables_addInclude (initialIncludes o)
    { options := o, name, logger := Log.named parent name }
  obtain rfl := hm.symm.trans (create_ok_iff.1 h).2
  rfl

/-- Copy an array into the work vector, and then load an element of another one. -/
def copyAndLoad (name : String) (copied loaded : List Float) : Routine Float :=
  { name, inputs := [], outputs := [], scalars := 1, work := 2, iwork := 0
    body := [.constArray 0 copied, .constElement 0 loaded 0] }

/-- Load an element of an array. -/
def load (name : String) (loaded : List Float) : Routine Float :=
  { name, inputs := [], outputs := [], scalars := 1, work := 0, iwork := 0
    body := [.constElement 0 loaded 1] }

theorem FailsAfter.requests_copyAndLoad {name : String} {copied loaded : List Float}
    (h : FailsAfter (copyAndLoad name copied loaded) m rs e)
    (hvalid : (copyAndLoad name copied loaded).validate = .ok ())
    (hname : ¬m.sections.any (·.routine.name = name)) :
    rs = (Instr.constArray 0 copied).requests := by
  cases h with
  | invalid he =>
    rw [hvalid] at he
    cases he
  | taken h => exact absurd h hname
  | @unregistered before after slot index values hbody =>
    rcases before with _ | ⟨first, _ | ⟨second, rest⟩⟩
    · simp [copyAndLoad] at hbody
    · simp only [copyAndLoad, List.cons_append, List.cons.injEq] at hbody
      rw [← hbody.1]
      rfl
    · simp [copyAndLoad] at hbody

/-- The copied array stays registered although the other one cannot be loaded. -/
theorem run_copyAndLoad (hm : m.reals.Sound) {name : String} {copied loaded : List Float}
    (hvalid : (copyAndLoad name copied loaded).validate = .ok ())
    (hname : ¬m.sections.any (·.routine.name = name))
    (hlength : ∀ v ∈ wordsOf copied :: m.reals.arrays, v.length ≠ loaded.length) :
    ∃ e, e.fault? = none ∧ (add (copyAndLoad name copied loaded)).run.run m =
      (.error e, m.register (Instr.constArray 0 copied).requests) := by
  obtain ⟨rs, e, hfails, he, hrun⟩ := exists_failsAfter hm hvalid hname
    (show 1 ≤ nameCapacity by decide)
    (List.mem_cons_of_mem _ List.mem_cons_self) (by
      rintro v (hv | hv)
      · exact hlength v (List.mem_cons_of_mem _ hv)
      · refine hlength v (List.mem_cons.2 (.inl ?_))
        simpa [Routine.requests, Routine.argumentRequests, copyAndLoad, Instr.requests] using hv)
  obtain rfl := hfails.requests_copyAndLoad hvalid hname
  exact ⟨e, he, hrun⟩

/-- A failed addition leaves an array, and a routine that loads it is accepted after that. -/
theorem exists_left_array : ∃ m₀ m₁ e, create {} "demo" "" = .ok m₀ ∧
    (add (copyAndLoad "f" [1, 2] [3])).run.run m₀ = (.error e, m₁) ∧ e.fault? = none ∧
      m₁ = m₀.register (Instr.constArray 0 [1, 2]).requests ∧
      (∀ r ∈ (Instr.constArray 0 [1, 2]).requests, r.AnsweredIn m₁) ∧
      ((add (load "g" [1, 2])).run.run m₁).1 = .ok () := by
  obtain ⟨m₀, hcreate⟩ : ∃ m₀, create {} "demo" "" = .ok m₀ :=
    ⟨_, create_ok_iff.2 ⟨⟨validate_options rfl rfl (by decide), by decide +kernel,
      by decide +kernel⟩, rfl⟩⟩
  obtain ⟨-, -, hpieces, hsound⟩ := of_create (κ := fun _ => .scalar) hcreate
  have hsections : m₀.sections = [] := by rw [sections, hpieces, List.filterMap_nil]
  obtain ⟨e, he, hrun⟩ := run_copyAndLoad (m := m₀) hsound.reals
    (show (copyAndLoad "f" [1, 2] [3]).validate = .ok () by cbv) (by simp [hsections])
    (by simp [reals_of_create hcreate, wordsOf])
  have hleft : ∀ r ∈ (Instr.constArray 0 [1, 2]).requests, r.AnsweredIn (m₀.register _) :=
    answeredIn_register hsound.toPooled (by simp [Instr.requests, Request.KeyedBy])
  refine ⟨m₀, _, e, hcreate, hrun, he, rfl, hleft, ?_⟩
  refine add_ok (sound_reals_register hsound.reals _) (by cbv) ?_ (by decide) ?_
  · simp [sections_register, hsections]
  · intro slot values index hmem
    obtain ⟨-, rfl, -⟩ := Instr.constElement.inj (List.mem_singleton.1 hmem)
    exact hleft (.constant (wordsOf [1, 2])) (List.mem_cons_of_mem _ List.mem_cons_self)

/-- An addition that fails leaves what was registered until then, and no text. If all of it was
there before, then nothing that happens later is different. If something was not, then the files of
a module with a routine are different at once. -/
theorem registered_by_failed_add (hm : Reachable κ m) (hf : f.KeyedBy κ)
    (hadd : (add f).run.run m = (.error e, m')) (he : e.fault? = none) :
    ∃ rs, FailsAfter f m rs e ∧ m' = m.register rs ∧ m'.pieces = m.pieces ∧
      ((∀ r ∈ rs, r.AnsweredIn m) →
        ∀ fs, (∀ g ∈ fs, g.KeyedBy κ) → observe fs m' = observe fs m) ∧
      (m.sections ≠ [] → m'.generate = m.generate → ∀ r ∈ rs, r.AnsweredIn m) := by
  have hpooled := hm.sound.toPooled
  have houtcome := outcome_add hpooled.reals f
  rw [hadd] at houtcome
  obtain ⟨rs, hfails, rfl⟩ := houtcome.failsAfter he
  have hrs := hfails.keyedBy hf
  have hpieces := pieces_register m rs
  refine ⟨rs, hfails, rfl, hpieces, fun h fs hfs => ?_, fun hne hgenerate => ?_⟩
  · have halike := (alike_register_iff hpooled hrs).2 h
    exact Twins.observe_eq ⟨halike, hpooled, hpooled.register hrs⟩ hfs
  · have halike := (extends_register m rs).alike_of_generate hm.supportWritten hpieces hne hgenerate
    exact (alike_register_iff hpooled hrs).1 halike

/-- Once a module has an array, a refused routine that copies it goes unnoticed, but not one that
copies another array. -/
theorem registered_by_failed_add_twice : ∃ m, Reachable (fun _ => .scalar) m ∧ m.sections ≠ [] ∧
    (∃ m' e, (add (copyAndLoad "f" [1, 2] [3])).run.run m = (.error e, m') ∧ e.fault? = none ∧
      ∀ fs, (∀ g ∈ fs, g.KeyedBy fun _ => .scalar) → observe fs m' = observe fs m) ∧
    ∃ m' e, (add (copyAndLoad "f" [4] [5, 6, 7])).run.run m = (.error e, m') ∧ e.fault? = none ∧
      m'.generate ≠ m.generate := by
  obtain ⟨m₀, m₁, e, hcreate, hrun, -, hm₁, hleft, hok⟩ := exists_left_array
  have hkeys : ∀ copied loaded, (copyAndLoad "f" copied loaded).KeyedBy fun _ => .scalar := by
    simp [Routine.KeyedBy, Routine.patterns, copyAndLoad, Instr.operands]
  have hreach : Reachable (fun _ => .scalar) m₁ := by
    have hadd := (Reachable.create hcreate).add (hkeys [1, 2] [3])
    rwa [hrun] at hadd
  have houtcome := outcome_add hreach.sound.reals (load "g" [1, 2])
  have hreach' := hreach.add (f := load "g" [1, 2])
    (by simp [Routine.KeyedBy, Routine.patterns, load, Instr.operands])
  generalize ((add (load "g" [1, 2])).run.run m₁).2 = m at houtcome hreach'
  rw [hok] at houtcome
  have hnames : m.sections.map (·.routine.name) = ["g"] := by
    obtain ⟨-, -, hpieces, -⟩ := of_create (κ := fun _ => .scalar) hcreate
    rw [houtcome.map_name, hm₁, sections_register, sections, hpieces]
    rfl
  have hname : ¬m.sections.any (·.routine.name = "f") := by
    intro hany
    obtain ⟨code, hcode, heq⟩ := List.any_eq_true.1 hany
    have hmem := List.mem_map_of_mem (f := fun code => code.routine.name) hcode
    rw [hnames, List.mem_singleton, of_decide_eq_true heq] at hmem
    simp at hmem
  have harrays : ∀ v ∈ m.reals.arrays, v.length = 2 := by
    intro v hv
    rcases houtcome.mem_reals hv with hv | hv
    · rw [hm₁] at hv
      rcases mem_reals_register hv with hv | hv
      · simp [reals_of_create hcreate] at hv
      · obtain rfl : v = wordsOf [1, 2] := by simpa [Instr.requests] using hv
        rfl
    · simp [Routine.requests, Routine.argumentRequests, load, Instr.requests] at hv
  have hne : m.sections ≠ [] := by
    rintro h
    simp [h] at hnames
  refine ⟨m, hreach', hne, ?_, ?_⟩
  · have hvalid : (copyAndLoad "f" [1, 2] [3]).validate = .ok () := by cbv
    obtain ⟨e, he, hrun⟩ := run_copyAndLoad hreach'.sound.reals hvalid hname
      (List.forall_mem_cons.2 ⟨by decide, fun v hv => by simp [harrays v hv]⟩)
    obtain ⟨rs, hfails, -, -, hsame, -⟩ :=
      registered_by_failed_add hreach' (hkeys [1, 2] [3]) hrun he
    obtain rfl := hfails.requests_copyAndLoad hvalid hname
    exact ⟨_, e, hrun, he, hsame fun r hr => (hleft r hr).mono houtcome.extends⟩
  · have hvalid : (copyAndLoad "f" [4] [5, 6, 7]).validate = .ok () := by cbv
    obtain ⟨e, he, hrun⟩ := run_copyAndLoad hreach'.sound.reals hvalid hname
      (List.forall_mem_cons.2 ⟨by decide, fun v hv => by simp [harrays v hv]⟩)
    obtain ⟨rs, hfails, -, -, -, hnew⟩ :=
      registered_by_failed_add hreach' (hkeys [4] [5, 6, 7]) hrun he
    obtain rfl := hfails.requests_copyAndLoad hvalid hname
    refine ⟨_, e, hrun, he, fun hgenerate => ?_⟩
    obtain ⟨i, v, hv, hbits⟩ := hnew hne hgenerate (.constant (wordsOf [4]))
      (List.mem_cons_of_mem _ List.mem_cons_self)
    have hlength := congrArg List.length hbits
    simp [Pool.bitsOf, wordsOf, harrays v (List.mem_of_getElem? hv)] at hlength

/-- A routine that reads an array is refused by a new module, but not after a routine that copied
the array was refused. -/
theorem failed_add_not_undone : ∃ m m' e e', create {} "demo" "" = .ok m ∧
    (add (copyAndLoad "f" [1, 2] [3])).run.run m = (.error e, m') ∧ e.fault? = none ∧
      ((add (load "g" [1, 2])).run.run m).1 = .error e' ∧
      ((add (load "g" [1, 2])).run.run m').1 = .ok () ∧
      observe [load "g" [1, 2]] m' ≠ observe [load "g" [1, 2]] m := by
  obtain ⟨m, m', e, hcreate, hrun, he, -, -, hok⟩ := exists_left_array
  obtain ⟨-, -, hpieces, hsound⟩ := of_create (κ := fun _ => .scalar) hcreate
  have hsections : m.sections = [] := by rw [sections, hpieces, List.filterMap_nil]
  obtain ⟨rs, e', -, -, hrefused⟩ := exists_failsAfter (f := load "g" [1, 2]) hsound.reals (by cbv)
    (by simp [hsections]) (by decide) List.mem_cons_self (by
      rintro v (hv | hv)
      · rw [reals_of_create hcreate] at hv
        cases hv
      · simp [Routine.requests, Routine.argumentRequests, load, Instr.requests] at hv)
  have herror := congrArg Prod.fst hrefused
  refine ⟨m, m', e, e', hcreate, hrun, he, herror, hok, ?_⟩
  rw [observe_cons, observe_cons, hok, herror]
  simp

end CodeModule

end Tangent
