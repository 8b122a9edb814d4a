import Mathlib
import Tangent.Proofs.Registry

/-!
# Adding routines

What adding a routine can lead to is listed once (`Outcome`): it is refused before anything
happens, it stops at an instruction and leaves behind what was registered until then, or its text is
appended. What a module satisfies after any number of additions, accepted or refused, is derived
from that (`Reachable.sound`).

Patterns are registered by their keys, so that a key has to stand for one pattern (`KeyedBy`).
-/

namespace Tangent

open CodeModule

/-! ## Routines -/

namespace Routine

/-- What the arguments of a routine ask for. -/
def argumentRequests (f : Routine Float) : List Request :=
  ((f.inputs ++ f.outputs).filterMap id).map .pattern

/-- What a routine asks for. -/
def requests (f : Routine Float) : List Request :=
  f.argumentRequests ++ f.body.flatMap Instr.requests

/-- What is written in front of the error of an instruction. -/
def instrContext (f : Routine Float) (i : Nat) : String :=
  "function " ++ f.name ++ ": instruction " ++ toString i ++ ": "

end Routine

namespace CodeModule

variable {m : CodeModule} {f : Routine Float}

theorem run_argumentTables (m : CodeModule) (patterns : List (Option SharedPattern)) :
    ∃ tables, (argumentTables patterns).run.run m =
        (.ok tables, m.register ((patterns.filterMap id).map .pattern)) ∧
      List.Forall₂ (fun sp i =>
        (m.register ((patterns.filterMap id).map .pattern)).patternTable? sp = some i)
        (patterns.filterMap id) tables := by
  unfold argumentTables
  induction patterns.filterMap id generalizing m with
  | nil => exact ⟨[], rfl, .nil⟩
  | cons sp sps ih =>
    obtain ⟨tables, hrun, htables⟩ := ih (m.addPattern sp).2
    refine ⟨(m.addPattern sp).1 :: tables, ?_, .cons ?_ htables⟩
    · rw [List.mapM_cons]
      exact (run_bind_ok rfl).trans ((run_bind_ok hrun).trans rfl)
    · exact (extends_register (m.addPattern sp).2 (sps.map .pattern)).patternTable?
        (patternTable?_addPattern m sp)

/-- What the support routines of a gateway for MATLAB ask for. -/
def mexRequests (o : Options) : List Request :=
  if o.withMex then [Support.fill, .fromMex, .toMex].map .support else []

theorem run_needSupport (supports : List Support) (m : CodeModule) :
    (supports.forM needSupport).run.run m = (.ok (), m.register (supports.map .support)) := by
  induction supports generalizing m with
  | nil => rfl
  | cons s supports ih => exact (run_bind_ok rfl).trans (ih (m.addSupport s))

/-- The statements of numbered instructions, with the errors in their contexts. -/
def emitBody (context : Nat → String) (instrs : List (Instr Float × Nat)) : Emit (List Stmt) :=
  instrs.mapM fun (instr, i) => instr.emit.adapt (.within (context i))

/-- The instructions of a routine are written in turn, up to the first one that reads an array that
is not registered. -/
theorem run_emitBody (hm : m.reals.Sound) (context : Nat → String) {instrs : List (Instr Float)}
    (k : Nat) (hs : ∀ instr ∈ instrs, instr.Sound f) :
    (∃ stmts, (emitBody context (instrs.zipIdx k)).run.run m =
          (.ok stmts, m.register (instrs.flatMap Instr.requests)) ∧
        List.Forall₂ (fun instr s =>
          instr.WrittenIn (m.register (instrs.flatMap Instr.requests)) s) instrs stmts) ∨
      ∃ before slot values index after,
        instrs = before ++ .constElement slot values index :: after ∧
        (m.register (before.flatMap Instr.requests)).reals.find? (wordsOf values) = none ∧
        (emitBody context (instrs.zipIdx k)).run.run m =
          (.error (.within (context (k + before.length))
            (.missing (.registeredConstant (valuesText values) m.name))),
            m.register (before.flatMap Instr.requests)) := by
  induction instrs generalizing m k with
  | nil => exact .inl ⟨[], rfl, .nil⟩
  | cons instr instrs ih =>
    obtain ⟨hinstr, hinstrs⟩ := List.forall_mem_cons.1 hs
    rw [List.zipIdx_cons, emitBody, List.mapM_cons]
    rcases hinstr.run_emit hm with ⟨s, hrun, hs⟩ | ⟨slot, values, index, rfl, hfind, hrun⟩
    · have hfirst : (instr.emit.adapt (Error.within (context k))).run.run m =
          (.ok s, m.register instr.requests) := by
        rw [run_adapt, hrun]
        rfl
      have hreals := sound_reals_register hm instr.requests
      rw [List.flatMap_cons, register_append]
      rcases ih hreals (k + 1) hinstrs with ⟨stmts, hrest, hstmts⟩ |
        ⟨before, slot, values, index, after, rfl, hfind, hrest⟩
      · refine .inl ⟨s :: stmts, ?_, .cons (hs.mono ?_ hreals ?_) hstmts⟩
        · exact (run_bind_ok hfirst).trans ((run_bind_ok hrest).trans rfl)
        · exact extends_register _ _
        · exact sound_reals_register hreals _
      · refine .inr ⟨instr :: before, slot, values, index, after, rfl, ?_, ?_⟩
        · rwa [List.flatMap_cons, register_append]
        · rw [List.flatMap_cons, register_append, List.length_cons,
            ← (extends_register m instr.requests).name, Nat.add_comm before.length, ← Nat.add_assoc]
          exact (run_bind_ok hfirst).trans (run_bind_error hrest)
    · refine .inr ⟨[], slot, values, index, instrs, rfl, hfind, run_bind_error ?_⟩
      rw [run_adapt, hrun]
      rfl

/-- The module with all that a routine asks for, and with a record of it. -/
def written (f : Routine Float) (m : CodeModule) : CodeModule :=
  (m.register f.requests).debug "function"
    [("name", .text f.name), ("instructions", .number f.body.length)]

/-- The module with a piece of text at the end. -/
def append (m : CodeModule) (piece : Piece) : CodeModule :=
  { m with pieces := m.pieces ++ [piece] }

/-- A routine as it stands in the text of a module. -/
structure Section.WrittenIn (m : CodeModule) (code : Section) : Prop where
  sound : code.routine.validate = .ok ()
  inputs : List.Forall₂ (fun sp i => m.patternTable? sp = some i)
    (code.routine.inputs.filterMap id) code.inputTables
  outputs : List.Forall₂ (fun sp i => m.patternTable? sp = some i)
    (code.routine.outputs.filterMap id) code.outputTables
  stmts : List.Forall₂ (fun instr s => instr.WrittenIn m s) code.routine.body code.stmts

theorem Section.WrittenIn.mono {code : Section} {m m' : CodeModule} (h : code.WrittenIn m)
    (hm : Extends m m') (hreals : m.reals.Sound) (hreals' : m'.reals.Sound) :
    code.WrittenIn m' where
  sound := h.sound
  inputs := h.inputs.imp fun _ _ => hm.patternTable?
  outputs := h.outputs.imp fun _ _ => hm.patternTable?
  stmts := h.stmts.imp fun _ _ hs => hs.mono hm hreals hreals'

/-- What adding a routine to a module can lead to. -/
inductive Outcome (f : Routine Float) (m : CodeModule) : Result Unit → CodeModule → Prop
  | invalid {e : Error} (hf : f.validate = .error e) : Outcome f m (.error e) m
  | taken (hf : f.validate = .ok ()) (hname : m.sections.any (·.routine.name = f.name)) :
    Outcome f m (.error (.issue (.alreadyDefined f.name m.name))) m
  /-- An instruction reads an array that is not registered. -/
  | unregistered (hf : f.validate = .ok ()) (hname : ¬m.sections.any (·.routine.name = f.name))
    {before after : List (Instr Float)} {slot index : Int64} {values : List Float}
    (hbody : f.body = before ++ .constElement slot values index :: after)
    (hfind : (m.register (f.argumentRequests ++ before.flatMap Instr.requests)).reals.find?
      (wordsOf values) = none) :
    Outcome f m (.error (.within (f.instrContext before.length)
        (.missing (.registeredConstant (valuesText values) m.name))))
      (m.register (f.argumentRequests ++ before.flatMap Instr.requests))
  /-- The local variables are too many to be listed. -/
  | overlong (hf : f.validate = .ok ()) (hname : ¬m.sections.any (·.routine.name = f.name))
    (hscalars : nameCapacity < f.scalars) :
    Outcome f m (.error (.fault .outOfRange)) ((written f m).append (.opening f.name))
  | added (hf : f.validate = .ok ()) (hname : ¬m.sections.any (·.routine.name = f.name))
    {code : Section} (hroutine : code.routine = f)
    (hcode : code.WrittenIn ((written f m).register (mexRequests m.options))) :
    Outcome f m (.ok ())
      (((written f m).register (mexRequests m.options)).append (.whole code))

/-- What is left to do for a routine once its instructions are emitted. -/
def finishAdd (f : Routine Float) (o : Options) (inputTables outputTables : List Nat) :
    Result (List Stmt) × CodeModule → Result Unit × CodeModule
  | (.error e, m) => (.error e, m)
  | (.ok stmts, m) =>
    let m := m.debug "function" [("name", .text f.name), ("instructions", .number f.body.length)]
    if !o.scalarsInWork && nameCapacity < f.scalars then
      (.error (.fault .outOfRange), m.append (.opening f.name))
    else (.ok (), (m.register (mexRequests o)).append
      (.whole { routine := f, stmts, inputTables, outputTables }))

theorem run_add_invalid {e : Error} (hf : f.validate = .error e) :
    (add f).run.run m = (.error e, m) :=
  run_bind_error (by rw [run_result, hf])

theorem run_add_taken (hf : f.validate = .ok ())
    (hname : m.sections.any (·.routine.name = f.name)) :
    (add f).run.run m = (.error (.issue (.alreadyDefined f.name m.name)), m) := by
  have hvalid : (liftM f.validate : Emit Unit).run.run m = (.ok (), m) := by rw [run_result, hf]
  refine (run_bind_ok hvalid).trans ((run_bind_ok (a := m) rfl).trans ?_)
  rw [if_pos hname]
  rfl

/-- A valid routine with a new name: the tables of its arguments are registered, then its
instructions are emitted. -/
theorem run_add (hf : f.validate = .ok ()) (hname : ¬m.sections.any (·.routine.name = f.name)) :
    ∃ inputTables outputTables,
      (add f).run.run m = finishAdd f m.options inputTables outputTables
        ((emitBody f.instrContext f.body.zipIdx).run.run (m.register f.argumentRequests)) ∧
      List.Forall₂ (fun sp i => (m.register f.argumentRequests).patternTable? sp = some i)
        (f.inputs.filterMap id) inputTables ∧
      List.Forall₂ (fun sp i => (m.register f.argumentRequests).patternTable? sp = some i)
        (f.outputs.filterMap id) outputTables := by
  obtain ⟨inputTables, hinputs, hinputTables⟩ := run_argumentTables m f.inputs
  obtain ⟨outputTables, houtputs, houtputTables⟩ := run_argumentTables
    (m.register ((f.inputs.filterMap id).map .pattern)) f.outputs
  have harguments : (m.register ((f.inputs.filterMap id).map .pattern)).register
      ((f.outputs.filterMap id).map .pattern) = m.register f.argumentRequests := by
    rw [← register_append, Routine.argumentRequests, List.filterMap_append, List.map_append]
  rw [harguments] at houtputs houtputTables
  refine ⟨inputTables, outputTables, ?_, hinputTables.imp fun _ _ => Extends.patternTable? ?_,
    houtputTables⟩
  · have hvalid : (liftM f.validate : Emit Unit).run.run m = (.ok (), m) := by rw [run_result, hf]
    refine (run_bind_ok hvalid).trans ((run_bind_ok (a := m) rfl).trans ?_)
    rw [if_neg hname]
    refine (run_bind_ok hinputs).trans ((run_bind_ok houtputs).trans ?_)
    rcases hbody : (emitBody f.instrContext f.body.zipIdx).run.run (m.register f.argumentRequests)
      with ⟨e | stmts, m'⟩
    · exact run_bind_error hbody
    · refine (run_bind_ok hbody).trans ((run_bind_ok rfl).trans ?_)
      rw [finishAdd]
      dsimp only
      by_cases hscalars : (!m.options.scalarsInWork && decide (nameCapacity < f.scalars)) = true
      · rw [if_pos hscalars, if_pos hscalars]
        rfl
      · rw [if_neg hscalars, if_neg hscalars, mexRequests]
        split
        · exact (run_bind_ok (run_needSupport _ _)).trans rfl
        · rfl
  · rw [← harguments]
    exact extends_register _ _

theorem outcome_add (hm : m.reals.Sound) (f : Routine Float) :
    Outcome f m ((add f).run.run m).1 ((add f).run.run m).2 := by
  rcases hf : f.validate with e | ⟨⟩
  · rw [run_add_invalid hf]
    exact .invalid hf
  by_cases hname : m.sections.any (·.routine.name = f.name)
  · rw [run_add_taken hf hname]
    exact .taken hf hname
  obtain ⟨inputTables, outputTables, hrun, hinputTables, houtputTables⟩ := run_add hf hname
  rw [hrun]
  have hreals := sound_reals_register hm f.argumentRequests
  rcases run_emitBody hreals f.instrContext 0 (Routine.validate_ok_iff.1 hf).2.2 with
    ⟨stmts, hbody, hstmts⟩ | ⟨before, slot, values, index, after, hsplit, hfind, hbody⟩
  · rw [← register_append] at hbody hstmts
    rw [hbody, finishAdd]
    split
    · next hscalars =>
      exact .overlong hf hname (of_decide_eq_true (Bool.and_eq_true_iff.1 hscalars).2)
    · have hfinal : Extends (m.register f.requests)
          ((written f m).register (mexRequests m.options)) :=
        (extends_debug _ _ _).trans (extends_register _ _)
      have hargs : Extends (m.register f.argumentRequests)
          ((written f m).register (mexRequests m.options)) := by
        rw [Routine.requests, register_append] at hfinal
        exact (extends_register _ _).trans hfinal
      have hsound := sound_reals_register hm f.requests
      refine .added hf hname rfl ⟨hf, ?_, ?_, ?_⟩
      · exact hinputTables.imp fun _ _ => hargs.patternTable?
      · exact houtputTables.imp fun _ _ => hargs.patternTable?
      · exact hstmts.imp fun _ _ hs =>
          hs.mono hfinal hsound (@sound_reals_register (written f m) hsound _)
  · rw [← register_append] at hbody hfind
    rw [(extends_register m f.argumentRequests).name, Nat.zero_add] at hbody
    rw [hbody]
    exact .unregistered hf hname hsplit hfind

/-! ## What stays true -/

/-- The pools have no repetitions, and the table of a registered pattern holds that pattern. -/
structure Pooled (κ : Nat → Pattern) (m : CodeModule) : Prop where
  reals : m.reals.Sound
  realKind : m.reals.kind = PoolKind.reals
  integers : m.integers.Sound
  integerKind : m.integers.kind = PoolKind.integers
  tables : ∀ key i, m.patterns.lookup key = some i →
    m.integers.arrays[i]? = some (κ key).compress

/-- The pattern of a request is the one that its key stands for. -/
def Request.KeyedBy (κ : Nat → Pattern) : Request → Prop
  | pattern sp => κ sp.key = sp.pattern
  | _ => True

variable {κ : Nat → Pattern}

theorem Pool.eq_of_bitsOf_eq {p : Pool Int64} (hp : p.kind = PoolKind.integers) {v w : List Int64}
    (h : p.bitsOf v = p.bitsOf w) : v = w := by
  rw [Pool.bitsOf, Pool.bitsOf, hp] at h
  refine List.map_injective_iff.2 ?_ h
  rintro ⟨a⟩ ⟨b⟩ hab
  exact congrArg Int64.ofUInt64 hab

theorem Pooled.addPattern (hm : Pooled κ m) {sp : SharedPattern} (hsp : κ sp.key = sp.pattern) :
    Pooled κ (m.addPattern sp).2 := by
  unfold CodeModule.addPattern
  split
  · exact hm
  · have hkind := (Pool.kind_add m.integers sp.pattern.compress).trans hm.integerKind
    refine ⟨hm.reals, hm.realKind, Pool.sound_add hm.integers _, hkind, fun key i hi => ?_⟩
    change (m.patterns ++ [(sp.key, _)]).lookup key = some i at hi
    rw [List.lookup_append, Option.or_eq_some_iff] at hi
    rcases hi with hi | ⟨-, hi⟩
    · exact Pool.getElem?_of_prefix (Pool.prefix_add m.integers _) (hm.tables key i hi)
    · obtain ⟨w, hw, hbits⟩ := Pool.holds_add hm.integers sp.pattern.compress
      obtain rfl := Pool.eq_of_bitsOf_eq hkind hbits
      rw [List.lookup_cons] at hi
      split at hi
      · next hkey =>
        rw [beq_iff_eq.1 hkey, hsp, ← Option.some.inj hi]
        exact hw
      · simp at hi

theorem Request.pooled (hm : Pooled κ m) : ∀ {r : Request}, r.KeyedBy κ → Pooled κ (r.register m)
  | support s, _ => by
    obtain ⟨_, _, _, _, h⟩ := sameTables_addSupport m s
    rw [register, h]
    exact ⟨hm.reals, hm.realKind, hm.integers, hm.integerKind, hm.tables⟩
  | pattern _, hr => hm.addPattern hr
  | constant words, _ => by
    obtain ⟨_, h⟩ := addWords_eq m words
    rw [register, h]
    exact ⟨Pool.sound_add hm.reals words, (Pool.kind_add _ _).trans hm.realKind, hm.integers,
      hm.integerKind, hm.tables⟩
  | external f, _ => by
    rw [register, addExternal]
    split
    · exact hm
    · exact ⟨hm.reals, hm.realKind, hm.integers, hm.integerKind, hm.tables⟩

theorem Pooled.register (hm : Pooled κ m) {rs : List Request} (hrs : ∀ r ∈ rs, r.KeyedBy κ) :
    Pooled κ (m.register rs) := by
  induction rs generalizing m with
  | nil => exact hm
  | cons r rs ih =>
    obtain ⟨hr, hrs⟩ := List.forall_mem_cons.1 hrs
    exact ih (Request.pooled hm hr) hrs

theorem Request.pieces_register (m : CodeModule) : ∀ r : Request, (r.register m).pieces = m.pieces
  | support s => by
    obtain ⟨_, _, _, _, h⟩ := sameTables_addSupport m s
    rw [register, h]
  | pattern sp => by
    rw [register, addPattern]
    split <;> rfl
  | constant words => by
    obtain ⟨_, h⟩ := addWords_eq m words
    rw [register, h]
  | external f => by
    rw [register, addExternal]
    split <;> rfl

theorem pieces_register (m : CodeModule) (rs : List Request) :
    (m.register rs).pieces = m.pieces := by
  induction rs generalizing m with
  | nil => rfl
  | cons r rs ih => exact (ih (r.register m)).trans (r.pieces_register m)

theorem sections_register (m : CodeModule) (rs : List Request) :
    (m.register rs).sections = m.sections := by
  rw [sections, pieces_register, sections]

/-- The support routines of a gateway. -/
theorem mem_support_mex {o : Options} (ho : o.withMex) (m : CodeModule) {s : Support}
    (hs : s ∈ [Support.fill, .fromMex, .toMex]) : s ∈ (m.register (mexRequests o)).support := by
  rw [mexRequests, if_pos ho]
  exact mem_support_register m (List.mem_map_of_mem hs)

/-- All that the routines of a module refer to is there. -/
structure Sound (κ : Nat → Pattern) (m : CodeModule) : Prop extends Pooled κ m where
  sections : ∀ code ∈ m.sections, code.WrittenIn m
  gateway : m.options.withMex → m.sections ≠ [] → ∀ s ∈ [Support.fill, .fromMex, .toMex],
    s ∈ m.support

theorem Sound.register (hm : Sound κ m) {rs : List Request} (hrs : ∀ r ∈ rs, r.KeyedBy κ) :
    Sound κ (m.register rs) := by
  have hextends := extends_register m rs
  have hpooled := hm.toPooled.register hrs
  refine ⟨hpooled, fun code hcode => ?_, fun ho hne s hs => ?_⟩
  · rw [sections_register] at hcode
    exact (hm.sections code hcode).mono hextends hm.reals hpooled.reals
  · rw [hextends.options] at ho
    rw [sections_register] at hne
    exact hextends.support.subset (hm.gateway ho hne s hs)

end CodeModule

/-! ## Keys -/

namespace Routine

/-- The patterns of the arguments and the operands of a routine. -/
def patterns (f : Routine Float) : List SharedPattern :=
  (f.inputs ++ f.outputs).filterMap id ++ f.body.flatMap Instr.operands

/-- Every pattern of a routine is the one that its key stands for. -/
def KeyedBy (κ : Nat → Pattern) (f : Routine Float) : Prop :=
  ∀ sp ∈ f.patterns, κ sp.key = sp.pattern

end Routine

theorem Instr.mem_operands_of_mem_requests {instr : Instr Float} {sp : SharedPattern}
    (h : .pattern sp ∈ instr.requests) : sp ∈ instr.operands := by
  cases instr with
  | project =>
    rw [requests] at h
    split at h
    · simp at h
    · simpa [operands] using h
  | apply c slot x y =>
    obtain ⟨s, -, hs⟩ := Option.map_eq_some_iff.1 (Option.mem_toList.1 h)
    cases hs
  | _ => simp_all [requests, operands]

theorem Routine.KeyedBy.keyedBy_requests {κ : Nat → Pattern} {f : Routine Float}
    (hf : f.KeyedBy κ) {instrs : List (Instr Float)} (hinstrs : instrs ⊆ f.body) :
    ∀ r ∈ f.argumentRequests ++ instrs.flatMap Instr.requests, r.KeyedBy κ := by
  intro r hr
  cases r with
  | pattern sp =>
    refine hf sp ?_
    rcases List.mem_append.1 hr with h | h
    · exact List.mem_append_left _ (by simpa [argumentRequests] using h)
    · obtain ⟨instr, hinstr, h⟩ := List.mem_flatMap.1 h
      exact List.mem_append_right _ (List.mem_flatMap.2
        ⟨instr, hinstrs hinstr, Instr.mem_operands_of_mem_requests h⟩)
  | _ => trivial

/-! ## Runs -/

namespace CodeModule

variable {κ : Nat → Pattern} {m m' : CodeModule} {f : Routine Float} {r : Result Unit}

@[simp]
theorem sections_append (m : CodeModule) (piece : Piece) :
    (m.append piece).sections = m.sections ++ match piece with
      | .whole code => [code]
      | .opening _ => [] := by
  rw [sections, append, List.filterMap_append]
  cases piece <;> rfl

theorem extends_append (m : CodeModule) (piece : Piece) : Extends m (m.append piece) :=
  { Extends.refl m with pieces := List.prefix_append _ _ }

theorem Outcome.extends (h : Outcome f m r m') : Extends m m' := by
  have hwritten : Extends m (written f m) :=
    (extends_register m f.requests).trans (extends_debug _ _ _)
  cases h with
  | invalid | taken => exact .refl m
  | unregistered => exact extends_register m _
  | overlong => exact hwritten.trans (extends_append _ _)
  | added => exact (hwritten.trans (extends_register _ _)).trans (extends_append _ _)

theorem Outcome.sound_reals (h : Outcome f m r m') (hm : m.reals.Sound) : m'.reals.Sound := by
  have hwritten : (written f m).reals.Sound := sound_reals_register hm f.requests
  cases h with
  | invalid | taken => exact hm
  | unregistered => exact sound_reals_register hm _
  | overlong => exact hwritten
  | added => exact sound_reals_register hwritten _

/-- The module has the routine if it was accepted, and no other new one. -/
theorem Outcome.map_sections (h : Outcome f m r m') :
    m'.sections.map (·.routine) = m.sections.map (·.routine) ++ if r.isOk then [f] else [] := by
  have hwritten : (written f m).sections = m.sections := sections_register m f.requests
  cases h with
  | invalid | taken => simp [Except.isOk, Except.toBool]
  | unregistered => simp [sections_register, Except.isOk, Except.toBool]
  | overlong => simp [hwritten, Except.isOk, Except.toBool]
  | added _ _ hroutine => simp [sections_register, hwritten, Except.isOk, Except.toBool, hroutine]

theorem Sound.debug (hm : Sound κ m) (message : String) (fields : List (String × Log.Value)) :
    Sound κ (m.debug message fields) where
  reals := hm.reals
  realKind := hm.realKind
  integers := hm.integers
  integerKind := hm.integerKind
  tables := hm.tables
  sections code hcode := (hm.sections code hcode).mono (extends_debug _ _ _) hm.reals hm.reals
  gateway := hm.gateway

theorem Sound.append (hm : Sound κ m) {piece : Piece}
    (hcode : ∀ code, piece = .whole code → code.WrittenIn m ∧ (m.options.withMex →
      ∀ s ∈ [Support.fill, .fromMex, .toMex], s ∈ m.support)) : Sound κ (m.append piece) where
  reals := hm.reals
  realKind := hm.realKind
  integers := hm.integers
  integerKind := hm.integerKind
  tables := hm.tables
  sections code hmem := by
    refine Section.WrittenIn.mono ?_ (extends_append m piece) hm.reals hm.reals
    rw [sections_append, List.mem_append] at hmem
    rcases hmem with hmem | hmem
    · exact hm.sections code hmem
    · cases piece with
      | whole code' =>
        obtain rfl := List.mem_singleton.1 hmem
        exact (hcode code rfl).1
      | opening => exact (List.not_mem_nil hmem).elim
  gateway ho hne := by
    cases piece with
    | whole code => exact (hcode code rfl).2 ho
    | opening name =>
      rw [sections_append, List.append_nil] at hne
      exact hm.gateway ho hne

theorem Outcome.sound (h : Outcome f m r m') (hm : Sound κ m) (hf : f.KeyedBy κ) :
    Sound κ m' := by
  have hwritten : Sound κ (written f m) :=
    (hm.register (hf.keyedBy_requests (List.Subset.refl f.body))).debug _ _
  cases h with
  | invalid | taken => exact hm
  | unregistered _ _ hbody => exact hm.register (hf.keyedBy_requests (by simp [hbody]))
  | overlong => exact hwritten.append (by simp)
  | added _ _ _ hcode =>
    have hmex : ∀ r ∈ mexRequests m.options, r.KeyedBy κ := by
      rw [mexRequests]
      split <;> simp [Request.KeyedBy]
    refine (hwritten.register hmex).append fun code heq => ?_
    obtain rfl := Piece.whole.inj heq
    refine ⟨hcode, fun ho s hs => mem_support_mex ?_ (written f m) hs⟩
    rwa [((extends_register m f.requests).trans (extends_debug _ _ _)).trans
      (extends_register (written f m) _) |>.options] at ho

/-- Add some routines in turn, whether they are accepted or not. -/
def addEach (fs : List (Routine Float)) : StateM CodeModule (List (Result Unit)) :=
  fs.mapM fun f => (add f).run

/-- The routines that were accepted. -/
def accepted (fs : List (Routine Float)) (results : List (Result Unit)) : List (Routine Float) :=
  (fs.zip results).filterMap fun (f, r) => if r.isOk then some f else none

theorem addEach_cons (f : Routine Float) (fs : List (Routine Float)) (m : CodeModule) :
    (addEach (f :: fs)).run m =
      (((add f).run.run m).1 :: ((addEach fs).run ((add f).run.run m).2).1,
        ((addEach fs).run ((add f).run.run m).2).2) := by
  rw [addEach, List.mapM_cons]
  rfl

theorem create_ok_iff {o : Options} {name parent : String} : create o name parent = .ok m ↔
    (o.validate = .ok () ∧ isIdentifier name ∧ name.toUpper ∉ reservedNames) ∧
      (initialIncludes o).foldl (fun m file => m.addInclude file)
        { options := o, name, logger := Log.named parent name } = m := by
  unfold create
  rcases o.validate with e | ⟨⟩
  · simp [bind, Except.bind]
  · by_cases hname : isIdentifier name <;> by_cases hreserved : name.toUpper ∈ reservedNames <;>
      simp [bind, Except.bind, pure, Except.pure, hname, hreserved, Result.issue]

/-- A new module has no text and no tables. -/
theorem of_create {o : Options} {name parent : String} (h : create o name parent = .ok m) :
    m.options = o ∧ m.name = name ∧ m.pieces = [] ∧ Sound κ m := by
  obtain ⟨_, _, _, _, hm⟩ := SameTables.foldl sameTables_addInclude (initialIncludes o)
    { options := o, name, logger := Log.named parent name }
  obtain rfl := hm.symm.trans (create_ok_iff.1 h).2
  refine ⟨rfl, rfl, rfl, ⟨Pool.sound_empty _, rfl, Pool.sound_empty _, rfl, ?_⟩, ?_, ?_⟩
  · intro key i hi
    cases hi
  · intro code hcode
    exact (List.not_mem_nil hcode).elim
  · intro _ hne
    exact (hne rfl).elim

theorem supportWritten_of_create {o : Options} {name parent : String}
    (h : create o name parent = .ok m) : m.SupportWritten := by
  rw [← (create_ok_iff.1 h).2]
  exact (Extends.foldl extends_addInclude (initialIncludes o) _).supportWritten
    ⟨rfl, fun _ hs => (List.not_mem_nil hs).elim⟩

/-- The modules that there can be. Routines are added, whether they are accepted or not, and tables
and support routines may be registered without a routine that refers to them. -/
inductive Reachable (κ : Nat → Pattern) : CodeModule → Prop
  | create {o : Options} {name parent : String} {m : CodeModule}
    (h : create o name parent = .ok m) : Reachable κ m
  | add {m : CodeModule} (hm : Reachable κ m) {f : Routine Float} (hf : f.KeyedBy κ) :
    Reachable κ ((add f).run.run m).2
  | register {m : CodeModule} (hm : Reachable κ m) {r : Request} (hr : r.KeyedBy κ) :
    Reachable κ (r.register m)

theorem Reachable.sound (hm : Reachable κ m) : Sound κ m := by
  induction hm with
  | create h => exact (of_create h).2.2.2
  | add _ hf ih => exact (outcome_add ih.reals _).sound ih hf
  | register _ hr ih => exact ih.register (List.forall_mem_singleton.2 hr)

theorem Reachable.supportWritten (hm : Reachable κ m) : m.SupportWritten := by
  induction hm with
  | create h => exact supportWritten_of_create h
  | add hm _ ih => exact (outcome_add hm.sound.reals _).extends.supportWritten ih
  | register _ _ ih => exact (Request.extends_register _ _).supportWritten ih

theorem Reachable.addEach (hm : Reachable κ m) {fs : List (Routine Float)}
    (hfs : ∀ f ∈ fs, f.KeyedBy κ) : Reachable κ ((addEach fs).run m).2 := by
  induction fs generalizing m with
  | nil => exact hm
  | cons f fs ih =>
    obtain ⟨hf, hfs⟩ := List.forall_mem_cons.1 hfs
    rw [addEach_cons]
    exact ih (hm.add hf) hfs

theorem Reachable.keyedBy (hm : Reachable κ m) : ∀ code ∈ m.sections, code.routine.KeyedBy κ := by
  suffices ∀ f ∈ m.sections.map (·.routine), f.KeyedBy κ from fun code hcode =>
    this _ (List.mem_map_of_mem hcode)
  induction hm with
  | create h =>
    obtain ⟨-, -, hpieces, -⟩ := of_create (κ := κ) h
    simp [CodeModule.sections, hpieces]
  | add hm hf ih =>
    rw [(outcome_add hm.sound.reals _).map_sections]
    refine List.forall_mem_append.2 ⟨ih, ?_⟩
    split
    · exact List.forall_mem_singleton.2 hf
    · exact fun _ h => (List.not_mem_nil h).elim
  | @register m _ r _ ih =>
    rwa [show (r.register m).sections = m.sections from sections_register m [r]]

/-! ## Routines that are accepted -/

/-- Reals are doubles unless another type is asked for. -/
theorem isTypeName_double : isTypeName "double" := by
  have hsplit : "double".splitOn " " = ["double"] := by
    rw [String.splitOn, if_neg (by decide)]
    iterate 7 rw [String.splitOnAux]
    decide +kernel
  rw [isTypeName, hsplit]
  decide +kernel

theorem validate_options {o : Options} (hstem : o.stem = "") (hreal : o.realType = "double")
    (hdir : o.dir ≠ "") : o.validate = .ok () := by
  simp [Options.validate, Options.issues, hstem, hreal, isTypeName_double, hdir, Error.combine?]

/-- A valid routine with a new name is added if the arrays that it reads are registered. -/
theorem add_ok (hm : m.reals.Sound) (hf : f.validate = .ok ())
    (hname : ¬m.sections.any (·.routine.name = f.name)) (hscalars : f.scalars ≤ nameCapacity)
    (hbody : ∀ slot values index, .constElement slot values index ∈ f.body →
      ∃ i, m.reals.Holds i (wordsOf values)) :
    ((add f).run.run m).1 = .ok () := by
  have houtcome := outcome_add hm f
  generalize ((add f).run.run m).1 = r at houtcome ⊢
  generalize ((add f).run.run m).2 = m' at houtcome
  cases houtcome with
  | invalid he =>
    rw [hf] at he
    cases he
  | taken _ h => exact absurd h hname
  | @unregistered _ _ before after slot index values hsplit hfind =>
    obtain ⟨i, hi⟩ := hbody slot values index (by simp [hsplit])
    have hextends := extends_register m (f.argumentRequests ++ before.flatMap Instr.requests)
    have hsome := hextends.find?_reals hm (sound_reals_register hm _)
      ((Pool.find?_eq_some_iff hm).2 hi)
    rw [hfind] at hsome
    cases hsome
  | overlong _ _ h => exact absurd h (Int64.not_lt.2 hscalars)
  | added => rfl

/-- The names of the routines after an addition. -/
theorem Outcome.map_name (h : Outcome f m r m') :
    m'.sections.map (·.routine.name) =
      m.sections.map (·.routine.name) ++ if r.isOk then [f.name] else [] := by
  have hnames := congrArg (List.map Routine.name) h.map_sections
  rw [List.map_append, List.map_map, List.map_map] at hnames
  rw [apply_ite (List.map Routine.name)] at hnames
  exact hnames

/-- Valid routines with different names and without elements of arrays are all added. -/
theorem addEach_ok {fs : List (Routine Float)} (hm : m.reals.Sound)
    (hfs : ∀ f ∈ fs, f.validate = .ok () ∧ f.scalars ≤ nameCapacity ∧
      ∀ instr ∈ f.body, ∀ slot values index, instr ≠ .constElement slot values index)
    (hnames : (m.sections.map (·.routine.name) ++ fs.map (·.name)).Nodup) :
    ((addEach fs).run m).1 = fs.map fun _ => .ok () := by
  induction fs generalizing m with
  | nil => rfl
  | cons f fs ih =>
    obtain ⟨⟨hf, hscalars, hbody⟩, hfs⟩ := List.forall_mem_cons.1 hfs
    have houtcome := outcome_add hm f
    have hname : ¬m.sections.any (·.routine.name = f.name) := by
      intro hany
      obtain ⟨code, hcode, heq⟩ := List.any_eq_true.1 hany
      have hmem : f.name ∈ m.sections.map (·.routine.name) :=
        List.mem_map.2 ⟨code, hcode, of_decide_eq_true heq⟩
      exact (List.nodup_append.1 hnames).2.2 _ hmem _ List.mem_cons_self rfl
    have hok := add_ok hm hf hname hscalars fun slot values index hmem =>
      (hbody _ hmem slot values index rfl).elim
    rw [addEach_cons, List.map_cons, hok]
    refine congrArg _ (ih (houtcome.sound_reals hm) hfs ?_)
    rw [houtcome.map_name, hok, List.append_assoc]
    exact hnames

end CodeModule

end Tangent
