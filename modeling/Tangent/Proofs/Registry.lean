import Mathlib
import Tangent.CodeModule.Emit
import Tangent.Proofs.Bounds
import Tangent.Proofs.Pools

/-!
# What routines register

An instruction asks its module for support routines, tables and external functions
(`Instr.requests`), and its statement refers to them by the places where the module keeps them
(`Instr.WrittenIn`). Emitting a sound instruction is answering its requests and then writing its
statement (`Instr.Sound.run_emit`), so that what emission does to a module is said once for all
instructions.

A module only grows (`Extends`): what has a place keeps it, and a statement stays what it is.
-/

namespace Tangent

theorem OrderedSet.mem_foldl_insert {α : Type} [DecidableEq α] {a : α} (as : List α) :
    ∀ s : OrderedSet α, a ∈ as.foldl OrderedSet.insert s ↔ a ∈ s ∨ a ∈ as := by
  induction as with
  | nil => simp
  | cons b as ih =>
    intro s
    rw [List.foldl_cons, ih, OrderedSet.mem_insert, List.mem_cons, or_assoc]

theorem OrderedSet.prefix_insert {α : Type} [DecidableEq α] (s : OrderedSet α) (a : α) :
    s.toList <+: (s.insert a).toList := by
  rw [toList_insert]
  split
  · exact List.prefix_rfl
  · exact List.prefix_append _ _

namespace CodeModule

variable {m m' m'' : CodeModule} {α β : Type}

/-! ## Running emissions -/

theorem run_bind_ok {x : Emit α} {g : α → Emit β} {a : α} (h : x.run.run m = (.ok a, m')) :
    (x >>= g).run.run m = (g a).run.run m' := by
  simp only [ExceptT.run_bind, StateT.run_bind, h]
  rfl

theorem run_bind_error {x : Emit α} {g : α → Emit β} {e : Error}
    (h : x.run.run m = (.error e, m')) : (x >>= g).run.run m = (.error e, m') := by
  simp only [ExceptT.run_bind, StateT.run_bind, h]
  rfl

theorem run_result (r : Result α) : (liftM r : Emit α).run.run m = (r, m) := by
  cases r <;> rfl

theorem run_adapt (x : Emit α) (g : Error → Error) :
    (x.adapt g).run.run m = ((x.run.run m).1.mapError g, (x.run.run m).2) :=
  rfl

/-! ## Growing modules -/

/-- The text of some support routines. -/
def Support.definitions (ss : List Support) : List String :=
  ss.flatMap fun s => s.lines ++ [""]

/-- The second module has some more support routines, behind those of the first. They are defined
in this order at the end of the text, and their headers are included. -/
def Defines (m m' : CodeModule) (new : List Support) : Prop :=
  m'.support.toList = m.support.toList ++ new ∧
    m'.supportText = m.supportText ++ Support.definitions new ∧
    ∀ s ∈ new, ∀ file ∈ s.includes, { file } ∈ m'.includes

theorem Defines.trans {new new' : List Support} (h : Defines m m' new) (h' : Defines m' m'' new')
    (hincludes : m'.includes.toList <+: m''.includes.toList) : Defines m m'' (new ++ new') := by
  obtain ⟨hsupport, htext, hfiles⟩ := h
  obtain ⟨hsupport', htext', hfiles'⟩ := h'
  refine ⟨?_, ?_, List.forall_mem_append.2 ⟨fun s hs file hfile => ?_, hfiles'⟩⟩
  · rw [hsupport', hsupport, List.append_assoc]
  · rw [htext', htext, Support.definitions, Support.definitions, Support.definitions,
      List.flatMap_append, List.append_assoc]
  · exact hincludes.subset (hfiles s hs file hfile)

/-- Nothing is defined. -/
theorem Defines.nil (hsupport : m'.support = m.support) (htext : m'.supportText = m.supportText) :
    Defines m m' [] := by
  refine ⟨?_, ?_, by simp⟩
  · rw [hsupport, List.append_nil]
  · rw [htext, Support.definitions, List.flatMap_nil, List.append_nil]

/-- All that is listed in the first module has the same place in the second. -/
structure Extends (m m' : CodeModule) : Prop where
  options : m'.options = m.options
  name : m'.name = m.name
  includes : m.includes.toList <+: m'.includes.toList
  defines : ∃ new, Defines m m' new
  integerKind : m'.integers.kind = m.integers.kind
  integers : m.integers.arrays <+: m'.integers.arrays
  realKind : m'.reals.kind = m.reals.kind
  reals : m.reals.arrays <+: m'.reals.arrays
  patterns : m.patterns <+: m'.patterns
  externals : m.externals <+: m'.externals
  pieces : m.pieces <+: m'.pieces

namespace Extends

theorem refl (m : CodeModule) : Extends m m :=
  ⟨rfl, rfl, List.prefix_rfl, ⟨[], .nil rfl rfl⟩, rfl, List.prefix_rfl, rfl, List.prefix_rfl,
    List.prefix_rfl, List.prefix_rfl, List.prefix_rfl⟩

theorem trans (h : Extends m m') (h' : Extends m' m'') : Extends m m'' where
  options := h'.options.trans h.options
  name := h'.name.trans h.name
  includes := h.includes.trans h'.includes
  defines := by
    obtain ⟨new, hnew⟩ := h.defines
    obtain ⟨new', hnew'⟩ := h'.defines
    exact ⟨new ++ new', hnew.trans hnew' h'.includes⟩
  integerKind := h'.integerKind.trans h.integerKind
  integers := h.integers.trans h'.integers
  realKind := h'.realKind.trans h.realKind
  reals := h.reals.trans h'.reals
  patterns := h.patterns.trans h'.patterns
  externals := h.externals.trans h'.externals
  pieces := h.pieces.trans h'.pieces

/-- A support routine keeps its place. -/
theorem support (h : Extends m m') : m.support.toList <+: m'.support.toList := by
  obtain ⟨new, hnew⟩ := h.defines
  exact ⟨new, hnew.1.symm⟩

/-- The text of a support routine keeps its place. -/
theorem supportText (h : Extends m m') : m.supportText <+: m'.supportText := by
  obtain ⟨new, hnew⟩ := h.defines
  exact ⟨_, hnew.2.1.symm⟩

theorem foldl {step : CodeModule → α → CodeModule} (hstep : ∀ m a, Extends m (step m a)) :
    ∀ (as : List α) (m : CodeModule), Extends m (as.foldl step m)
  | [], m => refl m
  | a :: as, m => (hstep m a).trans (foldl hstep as (step m a))

theorem patternTable? (h : Extends m m') {sp : SharedPattern} {i : Nat}
    (hi : m.patternTable? sp = some i) : m'.patternTable? sp = some i := by
  obtain ⟨rest, hrest⟩ := h.patterns
  rw [CodeModule.patternTable?] at hi ⊢
  rw [← hrest, List.lookup_append, hi, Option.some_or]

theorem find?_reals (h : Extends m m') (hm : m.reals.Sound) (hm' : m'.reals.Sound)
    {words : List UInt64} {i : Nat} (hi : m.reals.find? words = some i) :
    m'.reals.find? words = some i :=
  (Pool.find?_eq_some_iff hm').2 (((Pool.find?_eq_some_iff hm).1 hi).mono h.realKind h.reals)

end Extends

/-- The text has the support routines that are there, in their order, and their headers are
included. -/
def SupportWritten (m : CodeModule) : Prop :=
  m.supportText = Support.definitions m.support.toList ∧
    ∀ s ∈ m.support, ∀ file ∈ s.includes, { file } ∈ m.includes

theorem Extends.supportWritten (h : Extends m m') (hm : m.SupportWritten) : m'.SupportWritten := by
  obtain ⟨new, hsupport, htext, hfiles⟩ := h.defines
  obtain ⟨hm, hincludes⟩ := hm
  refine ⟨?_, fun s hs file hfile => ?_⟩
  · rw [htext, hm, hsupport, Support.definitions, Support.definitions, Support.definitions,
      List.flatMap_append]
  · rw [OrderedSet.mem_iff, hsupport] at hs
    rcases List.mem_append.1 hs with hs | hs
    · exact h.includes.subset (hincludes s hs file hfile)
    · exact hfiles s hs file hfile

theorem extends_debug (m : CodeModule) (message : String) (fields : List (String × Log.Value)) :
    Extends m (m.debug message fields) :=
  { Extends.refl m with }

theorem extends_addInclude (m : CodeModule) (file : Include) :
    Extends m (m.addInclude file) := by
  unfold addInclude
  split
  · exact .refl m
  · exact { Extends.refl m with
      includes := OrderedSet.prefix_insert m.includes file
      defines := ⟨[], .nil rfl rfl⟩ }

/-! ## Support routines -/

theorem mem_includes_addInclude (m : CodeModule) (file : Include) :
    file ∈ (m.addInclude file).includes := by
  unfold addInclude
  split
  · assumption
  · exact OrderedSet.mem_insert.2 (.inr rfl)

theorem mem_includes_foldl {file : α → Include} {files : List α} {a : α} (ha : a ∈ files)
    (m : CodeModule) : file a ∈ (files.foldl (fun m a => m.addInclude (file a)) m).includes := by
  induction files generalizing m with
  | nil => cases ha
  | cons b files ih =>
    rcases List.mem_cons.1 ha with rfl | ha
    · have hrest := Extends.foldl (fun m a => extends_addInclude m (file a)) files
        (m.addInclude (file a))
      exact hrest.includes.subset (mem_includes_addInclude m _)
    · exact ih ha _

/-- Headers leave the support routines as they are. -/
theorem support_foldl_addInclude (file : α → Include) (files : List α) : ∀ m : CodeModule,
    (files.foldl (fun m a => m.addInclude (file a)) m).support = m.support := by
  induction files with
  | nil => exact fun _ => rfl
  | cons a files ih =>
    refine fun m => (ih (m.addInclude (file a))).trans ?_
    unfold addInclude
    split <;> rfl

theorem support_defineSupport (m : CodeModule) (s : Support) :
    (m.defineSupport s).support = m.support.insert s :=
  congrArg (OrderedSet.insert · s) (support_foldl_addInclude (fun file => { file }) s.includes m)

/-- A routine that is not there is defined in the text. -/
theorem extends_defineSupport {s : Support} (hs : s ∉ m.support) :
    Extends m (m.defineSupport s) := by
  refine (Extends.foldl (fun m file => extends_addInclude m { file }) s.includes m).trans ?_
  rw [← support_foldl_addInclude (fun file => { file }) s.includes m] at hs
  refine { Extends.refl _ with defines := ⟨[s], ?_, ?_, ?_⟩ }
  · exact (OrderedSet.toList_insert _ s).trans (if_neg hs)
  · simp [defineSupport, debug, Support.definitions]
  · simp only [List.forall_mem_singleton]
    exact fun file hfile => mem_includes_foldl hfile m

/-- Define a support routine, unless it is there. -/
def defineOnce (m : CodeModule) (s : Support) : CodeModule :=
  if s ∈ m.support then m else m.defineSupport s

theorem extends_defineOnce (m : CodeModule) (s : Support) : Extends m (m.defineOnce s) := by
  unfold defineOnce
  split
  · exact .refl m
  · next hs => exact extends_defineSupport hs

theorem support_defineOnce (m : CodeModule) (s : Support) :
    (m.defineOnce s).support = m.support.insert s := by
  unfold defineOnce
  split
  · next hs => rw [OrderedSet.insert, dif_pos (OrderedSet.mem_iff.1 hs)]
  · exact support_defineSupport m s

theorem support_foldl_defineOnce (ss : List Support) : ∀ m : CodeModule,
    (ss.foldl defineOnce m).support = ss.foldl OrderedSet.insert m.support := by
  induction ss with
  | nil => exact fun _ => rfl
  | cons s ss ih => exact fun m => by rw [List.foldl_cons, ih, support_defineOnce, List.foldl_cons]

/-- A routine after those that it calls. -/
def Support.withNeeds (s : Support) : List Support :=
  s.needs ++ [s]

/-- What a routine calls calls nothing itself, so that the recursion is a pass over a short
list. -/
theorem addSupport_eq (s : Support) (m : CodeModule) :
    m.addSupport s = if s ∈ m.support then m else s.withNeeds.foldl defineOnce m := by
  have hunfold : ∀ (s : Support) (m : CodeModule), m.addSupport s = if s ∈ m.support then m
      else (s.needs.foldl (fun m t => m.addSupport t) m).defineSupport s := by
    intro s m
    rw [addSupport]
    exact congrArg (fun m' => if s ∈ m.support then m else defineSupport s m')
      (@List.foldl_attach _ _ s.needs (fun m t => m.addSupport t) m)
  have hneed : ∀ (m : CodeModule), ∀ t ∈ s.needs, m.addSupport t = m.defineOnce t := by
    intro m t ht
    rw [hunfold, Support.needs_of_mem_needs ht]
    rfl
  rw [hunfold]
  split
  · rfl
  · next hs =>
    have hnew : s ∉ (s.needs.foldl defineOnce m).support := by
      rw [support_foldl_defineOnce, OrderedSet.mem_foldl_insert]
      rintro (h | h)
      · exact hs h
      · rw [Support.needs_of_mem_needs h] at h
        cases h
    rw [List.foldl_ext _ defineOnce m hneed, Support.withNeeds, List.foldl_append,
      List.foldl_cons, List.foldl_nil, defineOnce, if_neg hnew]

theorem extends_addSupport (m : CodeModule) (s : Support) : Extends m (m.addSupport s) := by
  rw [addSupport_eq]
  split
  · exact .refl m
  · exact .foldl extends_defineOnce s.withNeeds m

theorem extends_addPattern (m : CodeModule) (sp : SharedPattern) :
    Extends m (m.addPattern sp).2 := by
  unfold addPattern
  split
  · exact .refl m
  · exact { Extends.refl m with
      integerKind := Pool.kind_add _ _
      integers := Pool.prefix_add _ _
      patterns := List.prefix_append _ _ }

theorem extends_addWords (m : CodeModule) (words : List UInt64) :
    Extends m (m.addWords words).2 := by
  unfold addWords
  split
  · exact .refl m
  · exact { Extends.refl m with
      realKind := Pool.kind_add _ _
      reals := Pool.prefix_add _ _ }

theorem extends_addExternal (m : CodeModule) (f : External) : Extends m (m.addExternal f) := by
  unfold addExternal
  split
  · exact .refl m
  · exact { Extends.refl m with externals := List.prefix_append _ _ }

/-! ## Requests -/

/-- Something that a statement refers to. -/
inductive Request
  | support (s : Support)
  | pattern (sp : SharedPattern)
  | constant (words : List UInt64)
  | external (f : External)

/-- Give what is asked for a place in the module. -/
def Request.register (m : CodeModule) : Request → CodeModule
  | support s => m.addSupport s
  | pattern sp => (m.addPattern sp).2
  | constant words => (m.addWords words).2
  | external f => m.addExternal f

/-- Answer some requests in turn. -/
def register (m : CodeModule) (requests : List Request) : CodeModule :=
  requests.foldl Request.register m

theorem register_append (m : CodeModule) (rs rs' : List Request) :
    m.register (rs ++ rs') = (m.register rs).register rs' :=
  List.foldl_append

theorem Request.extends_register (m : CodeModule) : ∀ r : Request, Extends m (r.register m)
  | support s => extends_addSupport m s
  | pattern sp => extends_addPattern m sp
  | constant words => extends_addWords m words
  | external f => extends_addExternal m f

theorem extends_register (m : CodeModule) (rs : List Request) : Extends m (m.register rs) :=
  .foldl Request.extends_register rs m

/-- Only the headers, the support routines and the log are different. -/
def SameTables (m m' : CodeModule) : Prop :=
  ∃ includes support supportText records,
    m' = { m with includes, support, supportText, records }

theorem SameTables.foldl {step : CodeModule → α → CodeModule}
    (hstep : ∀ m a, SameTables m (step m a)) :
    ∀ (as : List α) (m : CodeModule), SameTables m (as.foldl step m)
  | [], _ => ⟨_, _, _, _, rfl⟩
  | a :: as, m => by
    obtain ⟨_, _, _, _, ha⟩ := hstep m a
    obtain ⟨_, _, _, _, has⟩ := foldl hstep as (step m a)
    rw [List.foldl_cons, has, ha]
    exact ⟨_, _, _, _, rfl⟩

theorem sameTables_addInclude (m : CodeModule) (file : Include) :
    SameTables m (m.addInclude file) := by
  unfold addInclude
  split
  · exact ⟨_, _, _, _, rfl⟩
  · exact ⟨_, _, _, _, rfl⟩

theorem sameTables_defineOnce (m : CodeModule) (s : Support) : SameTables m (m.defineOnce s) := by
  unfold defineOnce
  split
  · exact ⟨_, _, _, _, rfl⟩
  · obtain ⟨_, _, _, _, h⟩ :=
      SameTables.foldl (fun m file => sameTables_addInclude m { file }) s.includes m
    simp only [defineSupport, h]
    exact ⟨_, _, _, _, rfl⟩

theorem sameTables_addSupport (m : CodeModule) (s : Support) : SameTables m (m.addSupport s) := by
  rw [addSupport_eq]
  split
  · exact ⟨_, _, _, _, rfl⟩
  · exact .foldl sameTables_defineOnce s.withNeeds m

theorem mem_support_addSupport (m : CodeModule) (s : Support) : s ∈ (m.addSupport s).support := by
  rw [addSupport_eq]
  split
  · assumption
  · rw [Support.withNeeds, List.foldl_append, List.foldl_cons, List.foldl_nil, support_defineOnce]
    exact OrderedSet.mem_insert.2 (.inr rfl)

theorem patternTable?_addPattern (m : CodeModule) (sp : SharedPattern) :
    (m.addPattern sp).2.patternTable? sp = some (m.addPattern sp).1 := by
  unfold addPattern
  split
  · assumption
  · next h =>
    rw [patternTable?] at h
    simp [patternTable?, debug, List.lookup_append, h]

theorem addWords_eq (m : CodeModule) (words : List UInt64) : ∃ records,
    m.addWords words =
      ((m.reals.add words).1, { m with reals := (m.reals.add words).2, records }) := by
  unfold addWords
  split
  · next h =>
    rw [Pool.add_of_some h]
    exact ⟨_, rfl⟩
  · exact ⟨_, rfl⟩

theorem map_ofBits_wordsOf (values : List Float) : (wordsOf values).map Float.ofBits = values := by
  simp [wordsOf, Function.comp_def, Float.ofBits_toBits]

theorem find?_addWords (hm : m.reals.Sound) (words : List UInt64) :
    (m.addWords words).2.reals.find? words = some (m.addWords words).1 := by
  obtain ⟨_, h⟩ := addWords_eq m words
  rw [h]
  exact Pool.find?_add_self hm words

theorem mem_externals_addExternal (m : CodeModule) (f : External) :
    f ∈ (m.addExternal f).externals := by
  unfold addExternal
  split
  · assumption
  · exact List.mem_append_right _ (List.mem_singleton_self f)

theorem Request.sound_reals (hm : m.reals.Sound) : ∀ r : Request, (r.register m).reals.Sound
  | support s => by
    obtain ⟨_, _, _, _, h⟩ := sameTables_addSupport m s
    rwa [register, h]
  | pattern sp => by
    rw [register, addPattern]
    split
    · exact hm
    · exact hm
  | constant words => by
    obtain ⟨_, h⟩ := addWords_eq m words
    rw [register, h]
    exact Pool.sound_add hm words
  | external f => by
    rw [register, addExternal]
    split
    · exact hm
    · exact hm

theorem sound_reals_register (hm : m.reals.Sound) (rs : List Request) :
    (m.register rs).reals.Sound := by
  induction rs generalizing m with
  | nil => exact hm
  | cons r rs ih => exact ih (Request.sound_reals hm r)

theorem extends_register_of_mem (m : CodeModule) {r : Request} {rs : List Request} (hr : r ∈ rs) :
    ∃ m₀, Extends (r.register m₀) (m.register rs) := by
  obtain ⟨before, after, rfl⟩ := List.append_of_mem hr
  rw [register_append]
  exact ⟨m.register before, extends_register _ after⟩

theorem mem_support_register (m : CodeModule) {s : Support} {rs : List Request}
    (hs : .support s ∈ rs) : s ∈ (m.register rs).support := by
  obtain ⟨m₀, h⟩ := extends_register_of_mem m hs
  exact h.support.subset (mem_support_addSupport m₀ s)

theorem mem_externals_register (m : CodeModule) {f : External} {rs : List Request}
    (hf : .external f ∈ rs) : f ∈ (m.register rs).externals := by
  obtain ⟨m₀, h⟩ := extends_register_of_mem m hf
  exact h.externals.subset (mem_externals_addExternal m₀ f)

/-! ## What a statement refers to -/

namespace Stmt

/-- The tables of patterns that a statement names. -/
def patternTables : Stmt → List Nat
  | call _ _ args => args.filterMap fun
    | .pattern table => some table
    | _ => none
  | _ => []

/-- The tables of reals that a statement names, each with the number of elements that are read. A
support routine reads as many as its count says. -/
def constantTables : Stmt → List (Nat × Int)
  | element _ table index => [(table, index.toInt + 1)]
  | call _ _ args =>
    let count := args.findSome? fun
      | .count n => some n.toInt
      | _ => none
    args.filterMap fun
      | .constants table => some (table, count.getD 0)
      | _ => none
  | _ => []

/-- A statement calls a support routine, directly or in the text of an operation. -/
def Calls (s : Support) : Stmt → Prop
  | unary u _ _ => ∀ x, u.write x = s.name ++ "(" ++ x ++ ")"
  | binary b _ _ _ => ∀ x y, b.write x y = s.name ++ "(" ++ x ++ "," ++ y ++ ")"
  | call _ routine _ => routine = s
  | _ => False

/-- The external functions that a statement calls. -/
def externals : Stmt → List External
  | external _ name args => [{ name, arity := args.length }]
  | _ => []

end Stmt

/-- An operation that is written as a call of a support routine has it as its helper. -/
theorem ofHelper?_of_unary {u : Unary} {s : Support}
    (h : ∀ x, u.write x = s.name ++ "(" ++ x ++ ")") :
    Support.ofHelper? (Op.unary u).helper = some s := by
  have h := h ""
  revert h
  cases u <;> cases s <;> decide

theorem ofHelper?_of_binary {b : Binary} {s : Support}
    (h : ∀ x y, b.write x y = s.name ++ "(" ++ x ++ "," ++ y ++ ")") :
    Support.ofHelper? (Op.binary b).helper = some s := by
  have h := h "" ""
  revert h
  cases b <;> cases s <;> decide

end CodeModule

open CodeModule

/-! ## Instructions -/

namespace Instr

/-- The patterns whose tables the statement of an instruction names. A projection between equal
patterns names none, since it is written as a copy. -/
def named : Instr Float → List SharedPattern
  | project _ sp _ sq _ =>
    if sp.map (·.pattern) = sq.map (·.pattern) then [] else sp.toList ++ sq.toList
  | instr => instr.operands

/-- The constant arrays that an instruction reads. -/
def arrays : Instr Float → List (List Float)
  | constArray _ values | constElement _ values _ => [values]
  | _ => []

/-- What an instruction asks its module for, in turn. The array of `constElement` has to be there
already. -/
def requests : Instr Float → List Request
  | input .. | output .. | const .. | gather .. | scatter .. | constElement .. => []
  | apply c _ _ _ => ((c.op?.bind fun op => Support.ofHelper? op.helper).map .support).toList
  | constArray _ values => [.support .copy, .constant (wordsOf values)]
  | fill .. => [.support .fill]
  | copy .. => [.support .copy]
  | swap .. => [.support .swap]
  | scale .. => [.support .scal]
  | axpy .. => [.support .axpy]
  | dot .. => [.support .dot]
  | reduce kind .. => [.support (supportOf kind)]
  | bilinear _ _ sp _ _ => .support .bilin :: sp.toList.map .pattern
  | rank1 _ sp _ _ _ => .support .rank1 :: sp.toList.map .pattern
  | project _ sp _ sq _ =>
    if sp.map (·.pattern) = sq.map (·.pattern) then [.support .copy]
    else .support .project :: (sp.toList ++ sq.toList).map .pattern
  | transpose _ sp _ sq _ => .support .trans :: (sp.toList ++ sq.toList).map .pattern
  | multiply _ sp _ sq _ sr _ _ =>
    .support .mtimes :: (sp.toList ++ sq.toList ++ sr.toList).map .pattern
  | external _ name args => [.external { name, arity := args.length }]

/-- A statement of an instruction refers to what the module has for it. -/
structure WrittenIn (m : CodeModule) (instr : Instr Float) (s : Stmt) : Prop where
  patterns : List.Forall₂ (fun sp i => m.patternTable? sp = some i) instr.named s.patternTables
  constants : List.Forall₂ (fun (values : List Float) (read : Nat × Int) =>
    m.reals.find? (wordsOf values) = some read.1 ∧ read.2 ≤ values.length)
    instr.arrays s.constantTables
  support : ∀ t, s.Calls t → t ∈ m.support
  externals : ∀ e ∈ s.externals, e ∈ m.externals

theorem WrittenIn.mono {m m' : CodeModule} {instr : Instr Float} {s : Stmt}
    (h : instr.WrittenIn m s) (hm : Extends m m') (hreals : m.reals.Sound)
    (hreals' : m'.reals.Sound) : instr.WrittenIn m' s where
  patterns := h.patterns.imp fun _ _ hi => hm.patternTable? hi
  constants := h.constants.imp fun _ _ hi => ⟨hm.find?_reals hreals hreals' hi.1, hi.2⟩
  support t ht := hm.support.subset (h.support t ht)
  externals e he := hm.externals.subset (h.externals e he)

variable {m : CodeModule} {f : Routine Float} {instr : Instr Float}

theorem writtenIn_call {slot : Option Int64} {t : Support} {args : List Arg}
    (ht : .support t ∈ instr.requests)
    (hpatterns : List.Forall₂ (fun sp i => (m.register instr.requests).patternTable? sp = some i)
      instr.named (Stmt.call slot t args).patternTables)
    (hconstants : List.Forall₂ (fun (values : List Float) (read : Nat × Int) =>
      (m.register instr.requests).reals.find? (wordsOf values) = some read.1 ∧
        read.2 ≤ values.length) instr.arrays (Stmt.call slot t args).constantTables) :
    instr.WrittenIn (m.register instr.requests) (.call slot t args) where
  patterns := hpatterns
  constants := hconstants
  support u hu := by
    obtain rfl : t = u := hu
    exact mem_support_register m ht
  externals _ he := (List.not_mem_nil he).elim

/-- A sound instruction registers what it asks for, and its statement refers to that. Only an
element of an array that is not registered cannot be written. -/
theorem Sound.run_emit (hs : instr.Sound f) (hm : m.reals.Sound) :
    (∃ s, instr.emit.run.run m = (.ok s, m.register instr.requests) ∧
      instr.WrittenIn (m.register instr.requests) s) ∨
    ∃ slot values index, instr = constElement slot values index ∧
      m.reals.find? (wordsOf values) = none ∧
      instr.emit.run.run m =
        (.error (.missing (.registeredConstant (valuesText values) m.name)), m) := by
  have htable : ∀ {m₀ m' : CodeModule} (sp : SharedPattern), Extends (m₀.addPattern sp).2 m' →
      m'.patternTable? sp = some (m₀.addPattern sp).1 := fun sp h =>
    h.patternTable? (patternTable?_addPattern _ sp)
  cases instr with
  | input _ _ _ | output _ _ _ | const _ _ | gather _ _ | scatter _ _ =>
    exact .inl ⟨_, rfl, .nil, .nil, fun _ h => h.elim, fun _ h => (List.not_mem_nil h).elim⟩
  | fill _ _ _ | copy _ _ _ | swap _ _ _ | scale _ _ _ | axpy _ _ _ _ | dot _ _ _ _
  | reduce _ _ _ _ => exact .inl ⟨_, rfl, writtenIn_call (by simp [requests]) .nil .nil⟩
  | apply c slot x y =>
    rcases hs.matched with ⟨u, hop⟩ | ⟨b, hop⟩
    · refine .inl ⟨.unary u slot x, ?_, .nil, .nil, fun t ht => ?_,
        fun _ h => (List.not_mem_nil h).elim⟩
      · simp only [emit, requests, hop, Option.bind_some]
        rcases Support.ofHelper? (Op.unary u).helper with _ | t <;> rfl
      · refine mem_support_register m ?_
        simp [requests, hop, ofHelper?_of_unary ht]
    · refine .inl ⟨.binary b slot x y, ?_, .nil, .nil, fun t ht => ?_,
        fun _ h => (List.not_mem_nil h).elim⟩
      · simp only [emit, requests, hop, Option.bind_some]
        rcases Support.ofHelper? (Op.binary b).helper with _ | t <;> rfl
      · refine mem_support_register m ?_
        simp [requests, hop, ofHelper?_of_binary ht]
  | constArray offset values =>
    refine .inl ⟨_, rfl, writtenIn_call (by simp [requests]) .nil (.cons ⟨?_, ?_⟩ .nil)⟩
    · exact find?_addWords (Request.sound_reals hm (.support .copy)) (wordsOf values)
    · exact toInt_ofNat_le _
  | constElement slot values index =>
    have hrun : (constElement slot values index).emit.run.run m =
        ((m.getConstant values).map fun i => .element slot i index, m) := by
      unfold emit
      refine (run_bind_ok (a := m) rfl).trans ?_
      rcases h : m.getConstant values with e | i
      · exact run_bind_error (run_result _)
      · exact run_bind_ok (run_result _)
    rcases hfind : m.reals.find? (wordsOf values) with _ | i
    · refine .inr ⟨slot, values, index, rfl, hfind, ?_⟩
      rw [hrun, getConstant, getWords, hfind, map_ofBits_wordsOf]
      rfl
    · refine .inl ⟨.element slot i index, by rw [hrun, getConstant, getWords, hfind]; rfl, .nil,
        .cons ⟨hfind, ?_⟩ .nil, fun _ h => h.elim, fun _ h => (List.not_mem_nil h).elim⟩
      have hlt := Int64.lt_iff_toInt_lt.1 hs.matched.2
      have hle := toInt_ofNat_le values.length
      change index.toInt + 1 ≤ values.length
      omega
  | bilinear slot a sp x y =>
    obtain ⟨p, rfl⟩ := Option.isSome_iff_exists.1 hs.matched
    exact .inl ⟨_, rfl, writtenIn_call (by simp [requests]) (.cons (htable p (.refl _)) .nil) .nil⟩
  | rank1 a sp alpha x y =>
    obtain ⟨p, rfl⟩ := Option.isSome_iff_exists.1 hs.matched
    exact .inl ⟨_, rfl, writtenIn_call (by simp [requests]) (.cons (htable p (.refl _)) .nil) .nil⟩
  | project source spSource target spTarget temporary =>
    obtain ⟨p, q, rfl, rfl, -⟩ := hs.matched
    -- What is emitted, asked for and named is decided by the same comparison.
    by_cases hpq : (some p).map (·.pattern) = (some q).map (·.pattern)
    · refine .inl ⟨.call none .copy [.work source,
        .count (Int64.ofNat (Routine.nonzeros [some p])), .work target], ?_,
        writtenIn_call ?_ ?_ .nil⟩
      · simp only [emit, requests, if_pos hpq]
        rfl
      · simp only [requests, if_pos hpq]
        exact List.mem_cons_self
      · simp only [named, if_pos hpq]
        exact .nil
    · let m₁ := (m.addSupport .project).addPattern p
      refine .inl ⟨.call none .project [.work source, .pattern m₁.1, .work target,
        .pattern (m₁.2.addPattern q).1, .work temporary], ?_, writtenIn_call ?_ ?_ .nil⟩
      · simp only [emit, requests, if_neg hpq]
        rfl
      · simp only [requests, if_neg hpq]
        exact List.mem_cons_self
      · simp only [named, requests, if_neg hpq]
        exact .cons (htable p (extends_addPattern _ q)) (.cons (htable q (.refl _)) .nil)
  | transpose source spSource target spTarget temporary =>
    obtain ⟨p, q, rfl, rfl, -⟩ := hs.matched
    exact .inl ⟨_, rfl, writtenIn_call (by simp [requests])
      (.cons (htable p (extends_addPattern _ q)) (.cons (htable q (.refl _)) .nil)) .nil⟩
  | multiply x spX y spY z spZ temporary transposed =>
    obtain ⟨p, q, r, rfl, rfl, rfl, -⟩ := hs.matched
    have hp := (extends_addPattern ((m.addSupport .mtimes).addPattern p).2 q).trans
      (extends_addPattern _ r)
    exact .inl ⟨_, rfl, writtenIn_call (by simp [requests]) (.cons (htable p hp)
      (.cons (htable q (extends_addPattern _ r)) (.cons (htable r (.refl _)) .nil))) .nil⟩
  | external slot name args =>
    refine .inl ⟨_, rfl, .nil, .nil, fun _ h => h.elim, fun e he => ?_⟩
    exact mem_externals_register m (by simpa [requests] using List.mem_singleton.1 he)

end Instr

end Tangent
