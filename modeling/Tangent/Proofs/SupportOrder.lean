import Mathlib
import Tangent.Proofs.Closed
import Tangent.Proofs.Interning

/-!
# Support routines are defined once, after those that they call

A request puts a support routine at the end of an ordered set, behind the routines that it calls,
unless it is there (`place`). Whatever is done to a module, its support routines are placed by the
requests that are made on the way (`support_after`): the one that is asked for by its number, those
of the instructions that are attempted when a routine is added, and those of its gateway.

The text is written while routines are placed, so that it has them all in their order
(`SupportWritten`). Each one defines macros of its own (`filterMap_definedMacro?`), so that no
routine can be read twice.
-/

namespace Tangent

open CodeModule

/-! ## Placing -/

namespace CodeModule

/-- A support routine cannot do without another one: it calls it, or one that it calls does. -/
def Support.Requires : Support → Support → Prop :=
  Relation.ReflTransGen fun s t => t ∈ s.needs

theorem Support.requires_iff {s t : Support} : s.Requires t ↔ t ∈ s.withNeeds := by
  unfold Requires
  rw [Relation.ReflTransGen.cases_head_iff, withNeeds, List.mem_append, List.mem_singleton,
    eq_comm, or_comm]
  refine or_congr_left ⟨?_, fun h => ⟨t, h, .refl⟩⟩
  rintro ⟨u, hu, hut⟩
  -- What a routine calls calls nothing itself.
  rcases Relation.ReflTransGen.cases_head hut with rfl | ⟨v, hv, -⟩
  · exact hu
  · rw [Support.needs_of_mem_needs hu] at hv
    cases hv

/-- Place a support routine after those that it calls, unless it is placed. -/
def place (placed : OrderedSet Support) (s : Support) : OrderedSet Support :=
  if s ∈ placed then placed else s.withNeeds.foldl OrderedSet.insert placed

/-- Every routine comes after those that it calls. -/
def CallsBackward (placed : OrderedSet Support) : Prop :=
  ∀ before s, before ++ [s] <+: placed.toList → ∀ t ∈ s.needs, t ∈ before

section Placed

variable {placed : OrderedSet Support} {s t : Support}

theorem CallsBackward.needs_mem (h : CallsBackward placed) (hs : s ∈ placed) :
    ∀ t ∈ s.needs, t ∈ placed := by
  intro t ht
  obtain ⟨before, after, hsplit⟩ := List.append_of_mem (OrderedSet.mem_iff.1 hs)
  have hmem := h before s ⟨after, by simp [hsplit]⟩ t ht
  rw [OrderedSet.mem_iff, hsplit]
  exact List.mem_append_left _ hmem

theorem CallsBackward.insert (h : CallsBackward placed) (hs : ∀ t ∈ s.needs, t ∈ placed) :
    CallsBackward (placed.insert s) := by
  intro before u hprefix
  rw [OrderedSet.toList_insert] at hprefix
  split at hprefix
  · exact h before u hprefix
  · rcases List.prefix_concat_iff.1 hprefix with heq | hprefix
    · obtain ⟨rfl, hus⟩ := List.append_inj' heq rfl
      obtain rfl := List.singleton_inj.1 hus
      exact hs
    · exact h before u hprefix

theorem CallsBackward.foldl_insert {as : List Support} (hneeds : ∀ s ∈ as, s.needs = []) :
    ∀ {placed : OrderedSet Support}, CallsBackward placed →
      CallsBackward (as.foldl OrderedSet.insert placed) := by
  induction as with
  | nil => exact fun h => h
  | cons a as ih =>
    intro placed h
    obtain ⟨ha, has⟩ := List.forall_mem_cons.1 hneeds
    exact ih has (h.insert (by simp [ha]))

/-- One request keeps the order, and adds what is required. -/
theorem CallsBackward.step (h : CallsBackward placed) (s : Support) :
    CallsBackward (place placed s) ∧
      ∀ t, t ∈ place placed s ↔ t ∈ placed ∨ s.Requires t := by
  unfold place
  split
  · next hs =>
    refine ⟨h, fun t => ⟨.inl, ?_⟩⟩
    rintro (ht | ht)
    · exact ht
    · rw [Support.requires_iff, Support.withNeeds, List.mem_append, List.mem_singleton] at ht
      rcases ht with ht | rfl
      · exact h.needs_mem hs t ht
      · exact hs
  · refine ⟨?_, fun t => by rw [OrderedSet.mem_foldl_insert, Support.requires_iff]⟩
    rw [Support.withNeeds, List.foldl_append]
    refine (h.foldl_insert fun t ht => Support.needs_of_mem_needs ht).insert fun t ht => ?_
    exact (OrderedSet.mem_foldl_insert _ _).2 (.inr ht)

/-- Many requests keep the order, and add what any of them requires. -/
theorem CallsBackward.run (rs : List Support) :
    ∀ {placed : OrderedSet Support}, CallsBackward placed →
      CallsBackward (rs.foldl place placed) ∧
        ∀ t, t ∈ rs.foldl place placed ↔ t ∈ placed ∨ ∃ s ∈ rs, s.Requires t := by
  induction rs with
  | nil => exact fun h => ⟨h, by simp⟩
  | cons r rs ih =>
    intro placed h
    obtain ⟨hplace, hmem⟩ := h.step r
    obtain ⟨hall, hmemAll⟩ := ih hplace
    refine ⟨hall, fun t => ?_⟩
    rw [List.foldl_cons, hmemAll, hmem, List.exists_mem_cons_iff, or_assoc]

end Placed

/-! ## Requests -/

variable {m : CodeModule}

theorem support_addSupport (m : CodeModule) (s : Support) :
    (m.addSupport s).support = place m.support s := by
  rw [addSupport_eq, apply_ite CodeModule.support, support_foldl_defineOnce, place]

/-- The support routine that is asked for. -/
def Request.support? : Request → Option Support
  | support s => some s
  | _ => none

theorem support_register (rs : List Request) : ∀ m : CodeModule,
    (m.register rs).support = (rs.filterMap Request.support?).foldl place m.support := by
  induction rs with
  | nil => exact fun _ => rfl
  | cons r rs ih =>
    intro m
    refine (ih (r.register m)).trans ?_
    cases r with
    | support s => exact congrArg (List.foldl place · _) (support_addSupport m s)
    | pattern sp =>
      refine congrArg (List.foldl place · _) ?_
      rw [Request.register, addPattern]
      split <;> rfl
    | constant values =>
      refine congrArg (List.foldl place · _) ?_
      rw [Request.register, addWords]
      split <;> rfl
    | external f =>
      refine congrArg (List.foldl place · _) ?_
      rw [Request.register, addExternal]
      split <;> rfl

end CodeModule

/-- The support routines that an instruction asks for. -/
def Instr.supports (instr : Instr Float) : List Support :=
  instr.requests.filterMap Request.support?

namespace CodeModule

variable {m : CodeModule} {f : Routine Float}

/-- The instructions that are attempted in turn: those that a module can emit, up to one that it
cannot. -/
def attempted (m : CodeModule) : List (Instr Float) → List (Instr Float)
  | [] => []
  | instr :: rest =>
    match instr.emit.run.run m with
    | (.ok _, m') => instr :: attempted m' rest
    | (.error _, _) => [instr]

theorem support_emit {instr : Instr Float} (hs : instr.Sound f) (hm : m.reals.Sound) :
    (instr.emit.run.run m).2.support = instr.supports.foldl place m.support ∧
      (instr.emit.run.run m).2.reals.Sound := by
  rcases hs.run_emit hm with ⟨s, hrun, -⟩ | ⟨slot, values, index, rfl, -, hrun⟩
  · rw [hrun]
    exact ⟨support_register _ m, sound_reals_register hm _⟩
  · rw [hrun]
    exact ⟨rfl, hm⟩

/-- The statements of a routine ask for what the attempted instructions ask for. -/
theorem support_emitBody (context : Nat → String) {instrs : List (Instr Float)}
    (hs : ∀ instr ∈ instrs, instr.Sound f) : ∀ {m : CodeModule} (k : Nat), m.reals.Sound →
      ((emitBody context (instrs.zipIdx k)).run.run m).2.support =
        ((attempted m instrs).flatMap Instr.supports).foldl place m.support := by
  induction instrs with
  | nil => exact fun _ _ => rfl
  | cons instr instrs ih =>
    intro m k hm
    obtain ⟨hinstr, hinstrs⟩ := List.forall_mem_cons.1 hs
    obtain ⟨hsupport, hreals⟩ := support_emit hinstr hm
    rw [List.zipIdx_cons, emitBody, List.mapM_cons, attempted]
    rcases hrun : instr.emit.run.run m with ⟨e | s, m'⟩
    · have hfirst : (instr.emit.adapt (Error.within (context k))).run.run m =
          (.error (.within (context k) e), m') := by
        rw [run_adapt, hrun]
        rfl
      rw [hrun] at hsupport
      rw [run_bind_error hfirst]
      simpa using hsupport
    · have hfirst : (instr.emit.adapt (Error.within (context k))).run.run m = (.ok s, m') := by
        rw [run_adapt, hrun]
        rfl
      rw [hrun] at hsupport hreals
      rw [run_bind_ok hfirst, List.flatMap_cons, List.foldl_append, ← hsupport,
        ← ih hinstrs (k + 1) hreals]
      rcases hrest : (emitBody context (instrs.zipIdx (k + 1))).run.run m' with ⟨e | stmts, m''⟩
      · rw [emitBody] at hrest
        rw [run_bind_error hrest]
      · rw [emitBody] at hrest
        rw [run_bind_ok hrest]
        rfl

/-- Only the elements of arrays that are not registered cannot be emitted. -/
theorem attempted_eq_self {instrs : List (Instr Float)} (hm : m.reals.Sound)
    (hs : ∀ instr ∈ instrs, instr.Sound f)
    (hconst : ∀ slot values index, .constElement slot values index ∉ instrs) :
    attempted m instrs = instrs := by
  induction instrs generalizing m with
  | nil => rfl
  | cons instr instrs ih =>
    obtain ⟨hinstr, hinstrs⟩ := List.forall_mem_cons.1 hs
    rcases hinstr.run_emit hm with ⟨s, hrun, -⟩ | ⟨slot, values, index, rfl, -, -⟩
    · rw [attempted, hrun]
      exact congrArg (instr :: ·) (ih (sound_reals_register hm _) hinstrs fun slot values index h =>
        hconst slot values index (List.mem_cons_of_mem _ h))
    · exact (hconst slot values index (List.mem_cons_self ..)).elim

/-! ## Calls -/

/-- A call that may change a module. -/
inductive ModuleCall
  | support (n : Int64)
  | table (call : TableCall)
  | add (f : Routine Float)

/-- The module after a call. -/
def ModuleCall.after (m : CodeModule) : ModuleCall → CodeModule
  | support n => ((addSupportNumber n).run.run m).2
  | table call => (call.answer.run m).2
  | add f => ((CodeModule.add f).run.run m).2

/-- The support routines of the gateways, if the module has gateways for MATLAB. -/
def mexSupports (o : Options) : List Support :=
  if o.withMex then [.fill, .fromMex, .toMex] else []

/-- The support routines that a call asks for, in turn. A routine that is refused asks for nothing;
one that is not added in the end asks for what its instructions ask for until then. -/
def ModuleCall.asked (m : CodeModule) : ModuleCall → List Support
  | support n => (Support.ofNumber? n).toList
  | table _ => []
  | add f =>
    if f.validate.isOk ∧ ¬m.sections.any (·.routine.name = f.name) then
      (attempted (m.register f.argumentRequests) f.body).flatMap Instr.supports ++
        if ((CodeModule.add f).run.run m).1.isOk then mexSupports m.options else []
    else []

/-- The module after some calls. -/
def afterAll (m : CodeModule) (calls : List ModuleCall) : CodeModule :=
  calls.foldl ModuleCall.after m

/-- The support routines that some calls ask for. -/
def askedAll (m : CodeModule) : List ModuleCall → List Support
  | [] => []
  | call :: calls => call.asked m ++ askedAll (call.after m) calls

theorem filterMap_mexRequests (o : Options) :
    (mexRequests o).filterMap Request.support? = mexSupports o := by
  unfold mexRequests mexSupports
  split <;> rfl

theorem filterMap_argumentRequests (f : Routine Float) :
    f.argumentRequests.filterMap Request.support? = [] := by
  rw [Routine.argumentRequests, List.filterMap_map]
  exact List.filterMap_eq_nil_iff.2 fun _ _ => rfl

theorem support_add (hm : m.reals.Sound) (f : Routine Float) :
    ((add f).run.run m).2.support =
      ((ModuleCall.add f).asked m).foldl place m.support := by
  rw [ModuleCall.asked]
  rcases hf : f.validate with e | ⟨⟩
  · rw [run_add_invalid hf]
    rfl
  by_cases hname : m.sections.any (·.routine.name = f.name)
  · rw [if_neg (fun h => h.2 hname), run_add_taken hf hname]
    rfl
  have hbody := support_emitBody f.instrContext (Routine.validate_ok_iff.1 hf).2.2 0
    (sound_reals_register hm f.argumentRequests)
  rw [support_register, filterMap_argumentRequests, List.foldl_nil] at hbody
  obtain ⟨inputTables, outputTables, hrun, -⟩ := run_add hf hname
  rw [if_pos ⟨rfl, hname⟩, hrun, List.foldl_append, ← hbody]
  rcases (emitBody f.instrContext f.body.zipIdx).run.run (m.register f.argumentRequests)
    with ⟨e | stmts, m'⟩
  · rfl
  · rw [finishAdd]
    dsimp only
    split
    · rfl
    · exact (support_register _ _).trans (by rw [filterMap_mexRequests]; rfl)

/-- What is placed after a call is what the call asks for, behind what was placed before. -/
theorem support_after (hm : m.reals.Sound) (call : ModuleCall) :
    (call.after m).support = (call.asked m).foldl place m.support ∧ (call.after m).reals.Sound := by
  cases call with
  | support n =>
    rw [ModuleCall.after, ModuleCall.asked, addSupportNumber]
    cases Support.ofNumber? n with
    | none => exact ⟨rfl, hm⟩
    | some s => exact ⟨support_addSupport m s, sound_reals_register hm [.support s]⟩
  | table call =>
    cases call with
    | addConstant words => exact ⟨support_register [.constant words] m,
        sound_reals_register hm [.constant words]⟩
    | addPattern sp => exact ⟨support_register [.pattern sp] m,
        sound_reals_register hm [.pattern sp]⟩
    | getConstant _ | getPattern _ => exact ⟨rfl, hm⟩
  | add f => exact ⟨support_add hm f, (outcome_add hm f).sound_reals hm⟩

/-- A call only adds to what there is. -/
theorem extends_after (hm : m.reals.Sound) (call : ModuleCall) : Extends m (call.after m) := by
  cases call with
  | support n =>
    rw [ModuleCall.after, addSupportNumber]
    cases Support.ofNumber? n with
    | none => exact .refl m
    | some s => exact extends_addSupport m s
  | table call =>
    cases call with
    | addConstant words => exact extends_addWords m words
    | addPattern sp => exact extends_addPattern m sp
    | getConstant _ | getPattern _ => exact .refl m
  | add f => exact (outcome_add hm f).extends

theorem extends_afterAll (calls : List ModuleCall) : ∀ {m : CodeModule}, m.reals.Sound →
    Extends m (m.afterAll calls) := by
  induction calls with
  | nil => exact fun _ => .refl _
  | cons call calls ih =>
    intro m hm
    exact (extends_after hm call).trans (ih (support_after hm call).2)

theorem support_afterAll (calls : List ModuleCall) : ∀ {m : CodeModule}, m.reals.Sound →
    (m.afterAll calls).support = (m.askedAll calls).foldl place m.support ∧
      (m.afterAll calls).reals.Sound := by
  induction calls with
  | nil => exact fun hm => ⟨rfl, hm⟩
  | cons call calls ih =>
    intro m hm
    obtain ⟨hsupport, hreals⟩ := support_after hm call
    rw [afterAll, List.foldl_cons, askedAll, List.foldl_append, ← hsupport]
    exact ih hreals

/-- A new module has no support routines. -/
theorem support_of_create {o : Options} {name parent : String} {m : CodeModule}
    (h : create o name parent = .ok m) : m.support = ∅ := by
  rw [← (create_ok_iff.1 h).2]
  exact support_foldl_addInclude id (initialIncludes o) _

/-! ## Text -/

/-- The name of the macro that a line defines. -/
def macroOf? : List Char → Option String
  | '#' :: 'd' :: 'e' :: 'f' :: 'i' :: 'n' :: 'e' :: ' ' :: rest =>
    some (String.ofList (rest.takeWhile isIdentifierRest))
  | _ => none

def definedMacro? (line : String) : Option String :=
  macroOf? line.toList

/-- The macros of a support routine. -/
def Support.macros : Support → List String
  | sparsity => ["SX_NNZ", "SX_COLBEGIN", "SX_COLEND", "SX_ROW"]
  | s => [s.name]

theorem filterMap_definedMacro?_cons (cs : List Char) (rest : List String)
    {name? : Option String} (h : macroOf? cs = name?) :
    (String.ofList cs :: rest).filterMap definedMacro? =
      name?.toList ++ rest.filterMap definedMacro? := by
  rw [List.filterMap_cons, definedMacro?, String.toList_ofList, h]
  cases name? <;> rfl

theorem Support.filterMap_definedMacro? (s : Support) :
    s.lines.filterMap definedMacro? = s.macros := by
  cases s <;> rw [Support.lines] <;> (repeat rw [filterMap_definedMacro?_cons _ _ rfl]) <;> rfl

/-- A macro belongs to one support routine. -/
theorem Support.find_macros (s : Support) :
    ∀ a ∈ s.macros, all.find? (fun t => decide (a ∈ t.macros)) = some s := by
  cases s <;> decide +kernel

theorem Support.nodup_macros (s : Support) : s.macros.Nodup := by
  cases s <;> decide +kernel

theorem Support.filterMap_definitions (ss : List Support) :
    (definitions ss).filterMap definedMacro? = ss.flatMap macros := by
  rw [definitions, List.filterMap_flatMap]
  refine List.flatMap_congr fun s _ => ?_
  rw [List.filterMap_append, s.filterMap_definedMacro?]
  exact List.append_nil _

/-- No macro is defined twice. -/
theorem SupportWritten.nodup (hm : m.SupportWritten) :
    (m.supportText.filterMap definedMacro?).Nodup := by
  rw [hm.1, Support.filterMap_definitions, List.nodup_flatMap]
  refine ⟨fun s _ => s.nodup_macros, m.support.nodup.imp fun hne a ha hb => hne ?_⟩
  exact Option.some.inj ((Support.find_macros _ a ha).symm.trans (Support.find_macros _ a hb))

/-- Where no macro is defined twice, a line that defines one is at one place. -/
theorem eq_of_prefix_concat {text before before' : List String} {line a : String}
    (hnodup : (text.filterMap definedMacro?).Nodup) (hline : definedMacro? line = some a)
    (h : before ++ [line] <+: text) (h' : before' ++ [line] <+: text) : before = before' := by
  have hmem : ∀ {p q : List String}, q ++ [line] <+: text → p ++ [line] <+: q ++ [line] →
      p = q := by
    intro p q hq hpq
    rcases List.prefix_concat_iff.1 hpq with heq | hprefix
    · exact (List.append_inj' heq rfl).1
    · -- A line that is also further up defines its macro a second time.
      have hq' := hnodup.sublist (hq.sublist.filterMap definedMacro?)
      have ha : a ∈ q.filterMap definedMacro? :=
        List.mem_filterMap.2 ⟨line, hprefix.subset (by simp), hline⟩
      rw [List.filterMap_append, List.filterMap_cons_some hline] at hq'
      exact (List.disjoint_of_nodup_append hq' ha (List.mem_cons_self ..)).elim
  rcases List.prefix_or_prefix_of_prefix h h' with hle | hle
  · exact hmem h' hle
  · exact (hmem h hle).symm

theorem Support.exists_defines (s : Support) :
    ∃ before line after a, s.lines = before ++ line :: after ∧ definedMacro? line = some a ∧
      a ∈ s.macros := by
  have hne : s.macros ≠ [] := by cases s <;> exact List.cons_ne_nil _ _
  obtain ⟨a, ha⟩ := List.exists_mem_of_ne_nil _ hne
  have hmem := ha
  rw [← s.filterMap_definedMacro?] at hmem
  obtain ⟨line, hline, hdefines⟩ := List.mem_filterMap.1 hmem
  obtain ⟨before, after, hsplit⟩ := List.append_of_mem hline
  exact ⟨before, line, after, a, hsplit, hdefines, ha⟩

/-- The lines of a registered support routine are at one place in the text. -/
theorem SupportWritten.existsUnique_prefix (hm : m.SupportWritten) {s : Support}
    (hs : s ∈ m.support) : ∃! before, before ++ s.lines <+: m.supportText := by
  obtain ⟨before, line, after, a, hlines, hline, -⟩ := s.exists_defines
  obtain ⟨placed, later, hsplit⟩ := List.append_of_mem (OrderedSet.mem_iff.1 hs)
  have hplace : Support.definitions placed ++ s.lines <+: m.supportText := by
    rw [hm.1, hsplit]
    simp [Support.definitions]
  refine ⟨_, hplace, fun other hother => ?_⟩
  have hconcat : ∀ p, p ++ s.lines <+: m.supportText →
      (p ++ before) ++ [line] <+: m.supportText := by
    intro p hp
    refine List.IsPrefix.trans ⟨after, ?_⟩ hp
    simp [hlines]
  exact List.append_cancel_right
    (eq_of_prefix_concat hm.nodup hline (hconcat _ hother) (hconcat _ hplace))

/-- The lines of any other one are not in the text. -/
theorem SupportWritten.not_infix (hm : m.SupportWritten) {s : Support} (hs : s ∉ m.support) :
    ¬s.lines <:+: m.supportText := by
  obtain ⟨before, line, after, a, hlines, hline, ha⟩ := s.exists_defines
  intro hinfix
  have hmem : line ∈ m.supportText := hinfix.subset (by simp [hlines])
  have ha' := List.mem_filterMap.2 ⟨line, hmem, hline⟩
  rw [hm.1, Support.filterMap_definitions] at ha'
  obtain ⟨t, ht, hat⟩ := List.mem_flatMap.1 ha'
  obtain rfl := Option.some.inj ((t.find_macros a hat).symm.trans (s.find_macros a ha))
  exact hs ht

theorem textOfLines_definitions (ss : List Support) :
    textOfLines (Support.definitions ss) = String.join (ss.map fun s => s.text ++ "\n") := by
  induction ss with
  | nil => rfl
  | cons s ss ih =>
    rw [Support.definitions, List.flatMap_cons, List.map_cons, String.join_cons, ← ih, textOfLines,
      List.map_append, String.join_append, List.map_append, String.join_append]
    rfl

theorem supportText_infix (m : CodeModule) : m.supportText <:+: m.preamble ++ m.routineText := by
  have hlines : m.supportText <+: m.supportLines := List.prefix_append _ _
  have hpreamble : m.supportLines <:+ m.preamble := List.suffix_append _ _
  exact (hlines.isInfix.trans hpreamble.isInfix).trans (List.prefix_append _ _).isInfix

/-! ## Modules -/

/-- Support routines are defined once, after those that they call. Whatever is done to a new
module, it has what the routines that were asked for require. The text of each of these is once in
the text that was written on the way, in the order in which they are listed, and their headers are
included. A routine comes after those that it calls and keeps its place. The text is in the
generated file, and a number that no routine has is refused. -/
theorem support_defined_once {o : Options} {name parent : String} {m₀ : CodeModule}
    (hcreate : create o name parent = .ok m₀) (calls : List ModuleCall) {m : CodeModule}
    (hm : m₀.afterAll calls = m) :
    (∀ t, t ∈ m.support ↔ ∃ s ∈ m₀.askedAll calls, s.Requires t) ∧
      (∀ s ∈ m.support, ∃! before, before ++ s.lines <+: m.supportText) ∧
      (∀ s ∉ m.support, ¬s.lines <:+: m.supportText) ∧
      CallsBackward m.support ∧
      (∀ more, m.support.toList <+: (m.afterAll more).support.toList ∧
        m.supportText <+: (m.afterAll more).supportText) ∧
      textOfLines m.supportText = String.join (m.support.toList.map fun s => s.text ++ "\n") ∧
      (∀ s ∈ m.support, ∀ file ∈ s.includes, { file } ∈ m.includes) ∧
      (∀ g, m.generate = .ok g → ∃ before after,
        g.source = textOfLines (before ++ m.supportText ++ after)) ∧
      ∀ n, Support.ofNumber? n = none → (addSupportNumber n).run.run m =
        (.error (.internal ("unknown auxiliary routine Aux(" ++ toString n ++ ")")), m) := by
  obtain ⟨-, -, -, hsound⟩ := of_create (κ := fun _ => .scalar) hcreate
  obtain ⟨hsupport, hreals⟩ := support_afterAll calls hsound.reals
  have hwritten := (extends_afterAll calls hsound.reals).supportWritten
    (supportWritten_of_create hcreate)
  rw [support_of_create hcreate] at hsupport
  rw [hm] at hsupport hreals hwritten
  have hempty : CallsBackward ∅ := fun before s hprefix =>
    (List.append_ne_nil_of_right_ne_nil before (List.cons_ne_nil s [])
      (List.prefix_nil.1 hprefix)).elim
  obtain ⟨horder, hmem⟩ := hempty.run (m₀.askedAll calls)
  rw [← hsupport] at horder hmem
  refine ⟨fun t => (hmem t).trans (or_iff_right List.not_mem_nil),
    fun s hs => hwritten.existsUnique_prefix hs, fun s hs => hwritten.not_infix hs, horder,
    fun more => ?_, ?_, hwritten.2, fun g hg => ?_, fun n hn => ?_⟩
  · have hextends := extends_afterAll more hreals
    exact ⟨hextends.support, hextends.supportText⟩
  · rw [hwritten.1, textOfLines_definitions]
  · obtain ⟨before, after, htext⟩ := m.supportText_infix
    exact ⟨before, after, by rw [source_of_generate hg, htext]⟩
  · rw [addSupportNumber, hn, Support.textOf, hn]
    rfl

/-- A routine by its number, twice, a product of matrices with its gateway, and a number that is
refused. -/
theorem support_defined_once_gram : ∃ m₀ m, create { withMex := true } "linear" "" = .ok m₀ ∧
    m₀.afterAll [.support 4, .add Routine.gram, .support 21, .support 4] = m ∧
    m.support.toList = [.dot, .sparsity, .trans, .fill, .mtimes, .fromMex, .toMex] ∧
    CallsBackward m.support ∧ ∃! before, before ++ Support.sparsity.lines <+: m.supportText := by
  obtain ⟨m₀, hcreate⟩ : ∃ m₀, create { withMex := true } "linear" "" = .ok m₀ :=
    ⟨_, create_ok_iff.2 ⟨⟨validate_options rfl rfl (by decide), by decide +kernel,
      by decide +kernel⟩, rfl⟩⟩
  obtain ⟨hoptions, -, hpieces, hsound⟩ := of_create (κ := fun _ => .scalar) hcreate
  have hvalid : Routine.gram.validate = .ok () := by cbv
  let m₁ := m₀.register [.support .dot]
  have hreals : m₁.reals.Sound := sound_reals_register hsound.reals _
  have hoptions₁ : m₁.options = { withMex := true } :=
    (extends_register m₀ _).options.trans hoptions
  have hsections : m₁.sections = [] := by
    rw [sections_register, sections, hpieces]
    rfl
  have hadded : ((add Routine.gram).run.run m₁).1 = .ok () :=
    add_ok hreals hvalid (by simp [hsections]) (by decide) (by simp [Routine.gram])
  have hasked : (ModuleCall.add Routine.gram).asked m₁ =
      [.trans, .fill, .mtimes, .fill, .fromMex, .toMex] := by
    rw [ModuleCall.asked, hvalid, hsections, hadded, hoptions₁,
      attempted_eq_self (sound_reals_register hreals _) (Routine.validate_ok_iff.1 hvalid).2.2
        (by simp [Routine.gram])]
    rfl
  let calls : List ModuleCall := [.support 4, .add Routine.gram, .support 21, .support 4]
  have hall : m₀.askedAll calls = .dot :: ((ModuleCall.add Routine.gram).asked m₁ ++ [.dot]) := rfl
  obtain ⟨-, honce, -, horder, -⟩ := support_defined_once hcreate calls rfl
  have hsupport : (m₀.afterAll calls).support.toList =
      [.dot, .sparsity, .trans, .fill, .mtimes, .fromMex, .toMex] := by
    rw [(support_afterAll calls hsound.reals).1, support_of_create hcreate, hall, hasked]
    rfl
  refine ⟨m₀, _, hcreate, rfl, hsupport, horder, honce _ ?_⟩
  rw [OrderedSet.mem_iff, hsupport]
  decide

end CodeModule

end Tangent
