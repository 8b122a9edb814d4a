import Mathlib
import Tangent.Proofs.Closed

/-!
# The symbols of a module

A routine is generated with functions that describe it and with its gateways, and all of them are
named after it (`symbolsOf`). The names can be read off the lines of the text (`definedName?`): a
function is defined where a line starts with its type.
-/

namespace Tangent.CodeModule

/-! ## Reading names -/

/-- The types of the functions that are generated for a routine. -/
def definedTypes : List String :=
  ["int ", "const int* ", "void "]

/-- The name of the function that a line starts to define. -/
def definedName? (line : String) : Option String :=
  let text := line.toList
  let text := (text.dropPrefix? "extern \"C\" ".toList).getD text
  (definedTypes.findSome? fun type => text.dropPrefix? type.toList).map fun rest =>
    String.ofList (rest.takeWhile isIdentifierRest)

/-- A string of characters that can stand in an identifier. -/
def isNamePart (s : String) : Bool :=
  s.toList.all isIdentifierRest

theorem isNamePart_ofList {cs : List Char} (h : cs.all isIdentifierRest) :
    isNamePart (String.ofList cs) := by
  rwa [isNamePart, String.toList_ofList]

theorem isNamePart_append {s t : String} (hs : isNamePart s) (ht : isNamePart t) :
    isNamePart (s ++ t) := by
  rw [isNamePart, String.toList_append, List.all_append, Bool.and_eq_true]
  exact ⟨hs, ht⟩

/-- A line that is empty or starts with something else than a type or a linkage. -/
def Inner (line : String) : Prop :=
  ∀ c ∈ line.toList.head?, c ∉ ['e', 'i', 'c', 'v']

theorem inner_empty : Inner "" := by simp [Inner]

-- A literal is `String.ofList` of its characters, so that only the first one has to be looked at.
theorem inner_ofList {c : Char} {cs : List Char} (h : c.isAlpha = false) :
    Inner (String.ofList (c :: cs)) := by
  have hnot : c ∉ ['e', 'i', 'c', 'v'] := by
    rintro hc
    simp only [List.mem_cons, List.not_mem_nil, or_false] at hc
    rcases hc with rfl | rfl | rfl | rfl <;> cases h
  simpa [Inner] using hnot

theorem inner_append {c : Char} {cs : List Char} {tail : String} (h : c.isAlpha = false) :
    Inner (String.ofList (c :: cs) ++ tail) := by
  simpa [Inner] using @inner_ofList c cs h

theorem definedName?_of_inner {line : String} (h : Inner line) : definedName? line = none := by
  unfold definedName?
  unfold Inner at h
  generalize line.toList = text at h ⊢
  rcases text with _ | ⟨c, cs⟩
  · rfl
  · obtain ⟨he, hi, hc, hv⟩ : c ≠ 'e' ∧ c ≠ 'i' ∧ c ≠ 'c' ∧ c ≠ 'v' := by simpa using h
    simp [definedTypes, List.dropPrefix?, he, hi, hc, hv]

theorem filterMap_definedName?_eq_nil {lines : List String} (h : ∀ line ∈ lines, Inner line) :
    lines.filterMap definedName? = [] :=
  List.filterMap_eq_nil_iff.2 fun line hline => definedName?_of_inner (h line hline)

theorem takeWhile_name {name : String} (hname : isNamePart name) (rest : List Char) :
    String.ofList ((name.toList ++ '(' :: rest).takeWhile isIdentifierRest) = name := by
  rw [List.takeWhile_append_of_pos (List.all_eq_true.1 hname),
    List.takeWhile_cons_of_neg (by decide), List.append_nil, String.ofList_toList]

variable {o : Options} {type name suffix rest : String}

/-- A definition, with C linkage or without. -/
theorem definedName?_exposed {declaration : String} (htype : type ∈ definedTypes)
    (hname : isNamePart name) (h : declaration = type ++ (name ++ ("(" ++ rest))) (tail : String) :
    definedName? (exposed o declaration ++ tail) = some name := by
  have hrest := takeWhile_name hname (rest.toList ++ tail.toList)
  simp only [definedTypes, List.mem_cons, List.not_mem_nil, or_false] at htype
  unfold definedName? exposed
  rcases htype with rfl | rfl | rfl <;> split <;>
    simp [definedTypes, List.dropPrefix?, h, hrest]

/-- Where the name ends in the declaration of a description. -/
theorem declaration_eq {tail : String} (h : tail = suffix ++ ("(" ++ rest)) :
    type ++ name ++ tail = type ++ (name ++ suffix ++ ("(" ++ rest)) := by
  simp only [h, String.append_assoc]

theorem definedName?_definition {line : String} (htype : type ∈ definedTypes)
    (hname : isNamePart name) (h : line = type ++ (name ++ ("(" ++ rest))) :
    definedName? line = some name := by
  simpa [exposed] using definedName?_exposed (o := {}) htype hname h ""

/-! ## The names in the text -/

/-- What is appended to the name of a routine for the routine itself and for its descriptions. -/
def suffixes : List String :=
  ["", "_n_in", "_n_out", "_sparsity_in", "_sparsity_out", "_work"]

theorem isNamePart_of_isIdentifier {name : String} (h : isIdentifier name) : isNamePart name := by
  unfold isIdentifier at h
  unfold isNamePart
  split at h
  · cases h
  · next c cs heq =>
    obtain ⟨hc, hcs⟩ := Bool.and_eq_true_iff.1 h
    rw [heq, List.all_cons, Bool.and_eq_true]
    refine ⟨?_, hcs⟩
    simp only [isIdentifierStart, isIdentifierRest, Char.isAlphanum, Bool.or_eq_true] at hc ⊢
    tauto

/-- The lines of one function: a definition, and lines that define nothing. -/
theorem filterMap_function {line : String} {lines : List String}
    (hline : definedName? line = some name) (hlines : ∀ l ∈ lines, Inner l) :
    (line :: lines).filterMap definedName? = [name] := by
  rw [List.filterMap_cons_some hline, filterMap_definedName?_eq_nil hlines]

section

variable {f : Routine Float} {declaration : String} (htype : type ∈ definedTypes)
  (hname : isNamePart name) (h : declaration = type ++ (name ++ ("(" ++ rest)))

include htype hname h

theorem filterMap_numberLines (n : Nat) :
    (numberLines o declaration n).filterMap definedName? = [name] := by
  refine filterMap_function ?_ (List.forall_mem_singleton.2 inner_empty)
  rw [String.append_assoc, String.append_assoc]
  exact definedName?_exposed htype hname h _

theorem filterMap_switchLines (tables : List Nat) :
    (switchLines o declaration tables).filterMap definedName? = [name] := by
  simp only [switchLines, List.cons_append, List.nil_append]
  refine filterMap_function (definedName?_exposed htype hname h _) ?_
  simp only [List.forall_mem_cons, List.forall_mem_append, List.forall_mem_map,
    String.append_assoc]
  exact ⟨inner_ofList rfl, fun _ _ => inner_append rfl, inner_ofList rfl, inner_ofList rfl,
    inner_ofList rfl, inner_empty, List.forall_mem_nil _⟩

theorem filterMap_sizeLines : (sizeLines o f declaration).filterMap definedName? = [name] := by
  refine filterMap_function (definedName?_exposed htype hname h _) ?_
  simp only [List.forall_mem_cons, String.append_assoc]
  exact ⟨inner_append rfl, inner_append rfl, inner_append rfl, inner_append rfl, inner_ofList rfl,
    inner_ofList rfl, inner_empty, List.forall_mem_nil _⟩

end

theorem int_mem_definedTypes : "int " ∈ definedTypes := by decide

/-- The routine itself. -/
theorem filterMap_bodyLines {f : Routine Float} (hname : isNamePart f.name) (stmts : List Stmt) :
    (openingLines o f.name ++ localLines o f
      ++ stmts.map (fun s => "  " ++ s.text (layoutOf o f))
      ++ ["  return 0;", "\x7d", ""]).filterMap definedName? = [f.name] := by
  have hdeclaration : routineDeclaration f.name = "int " ++ (f.name ++ ("(" ++
      "const real_t** arg, real_t** res, int* iw, real_t* w, int mem)")) := by
    rw [routineDeclaration, String.append_assoc]
    rfl
  simp only [openingLines, List.cons_append, List.nil_append, List.append_assoc]
  rw [String.append_assoc, List.filterMap_cons_none (definedName?_of_inner (inner_append rfl))]
  refine filterMap_function (definedName?_exposed int_mem_definedTypes hname hdeclaration _) ?_
  simp only [List.forall_mem_append, List.forall_mem_map, List.forall_mem_cons]
  refine ⟨?_, fun _ _ => inner_append rfl, inner_ofList rfl, inner_ofList rfl, inner_empty,
    List.forall_mem_nil _⟩
  rw [localLines]
  split
  · exact List.forall_mem_nil _
  · simp only [List.forall_mem_singleton, String.append_assoc]
    exact inner_append rfl

theorem filterMap_routineLines {code : Section} (hname : isIdentifier code.routine.name) :
    (routineLines o code).filterMap definedName? = suffixes.map (code.routine.name ++ ·) := by
  have hid := isNamePart_of_isIdentifier hname
  have hpointer : "const int* " ∈ definedTypes := by decide
  unfold routineLines
  generalize code.routine = f at hid
  have hinputs : (numberLines o ("int " ++ f.name ++ "_n_in(void)") f.inputs.length).filterMap
      definedName? = [f.name ++ "_n_in"] :=
    filterMap_numberLines int_mem_definedTypes (isNamePart_append hid (isNamePart_ofList rfl))
      (declaration_eq (show "_n_in(void)" = "_n_in" ++ ("(" ++ "void)") from rfl)) _
  have houtputs : (numberLines o ("int " ++ f.name ++ "_n_out(void)") f.outputs.length).filterMap
      definedName? = [f.name ++ "_n_out"] :=
    filterMap_numberLines int_mem_definedTypes (isNamePart_append hid (isNamePart_ofList rfl))
      (declaration_eq (show "_n_out(void)" = "_n_out" ++ ("(" ++ "void)") from rfl)) _
  have hsparsityIn : (switchLines o ("const int* " ++ f.name ++ "_sparsity_in(int i)")
      code.inputTables).filterMap definedName? = [f.name ++ "_sparsity_in"] :=
    filterMap_switchLines hpointer (isNamePart_append hid (isNamePart_ofList rfl))
      (declaration_eq
        (show "_sparsity_in(int i)" = "_sparsity_in" ++ ("(" ++ "int i)") from rfl)) _
  have hsparsityOut : (switchLines o ("const int* " ++ f.name ++ "_sparsity_out(int i)")
      code.outputTables).filterMap definedName? = [f.name ++ "_sparsity_out"] :=
    filterMap_switchLines hpointer (isNamePart_append hid (isNamePart_ofList rfl))
      (declaration_eq
        (show "_sparsity_out(int i)" = "_sparsity_out" ++ ("(" ++ "int i)") from rfl)) _
  have hwork : (sizeLines o f ("int " ++ f.name ++
      "_work(int *sz_arg, int* sz_res, int *sz_iw, int *sz_w)")).filterMap definedName? =
        [f.name ++ "_work"] :=
    filterMap_sizeLines int_mem_definedTypes (isNamePart_append hid (isNamePart_ofList rfl))
      (declaration_eq (show "_work(int *sz_arg, int* sz_res, int *sz_iw, int *sz_w)" =
        "_work" ++ ("(" ++ "int *sz_arg, int* sz_res, int *sz_iw, int *sz_w)") from rfl))
  have hroutine := filterMap_bodyLines (o := o) hid code.stmts
  simp only [List.filterMap_append] at hroutine ⊢
  rw [hroutine, hinputs, houtputs, hsparsityIn, hsparsityOut, hwork]
  simp [suffixes]

theorem inner_vectorLines (f : Routine Float) (frame : Frame) :
    ∀ line ∈ vectorLines f frame, Inner line := by
  simp only [vectorLines, List.forall_mem_cons, String.append_assoc]
  exact ⟨inner_append rfl, inner_append rfl, inner_append rfl, inner_append rfl,
    List.forall_mem_nil _⟩

theorem inner_resultLines (frame : Frame) : ∀ line ∈ resultLines frame, Inner line := by
  simp only [resultLines, List.forall_mem_map, String.append_assoc]
  exact fun _ _ => inner_append rfl

theorem filterMap_mexLines {code : Section} (hname : isIdentifier code.routine.name) :
    (mexLines o code).filterMap definedName? = ["mex_" ++ code.routine.name] := by
  have hline : definedName? ("void mex_" ++ code.routine.name
      ++ "(int resc, mxArray *resv[], int argc, const mxArray *argv[]) \x7b") =
        some ("mex_" ++ code.routine.name) :=
    definedName?_definition (show "void " ∈ definedTypes by decide)
      (isNamePart_append (isNamePart_ofList rfl) (isNamePart_of_isIdentifier hname))
      (show _ = "void " ++ ("mex_" ++ code.routine.name ++ ("(" ++
        "int resc, mxArray *resv[], int argc, const mxArray *argv[]) \x7b")) by
        simp only [String.append_assoc]; rfl)
  simp only [mexLines, List.cons_append, List.nil_append, List.append_assoc]
  rw [List.filterMap_cons_none (definedName?_of_inner (inner_ofList rfl))]
  refine filterMap_function hline ?_
  simp only [List.forall_mem_append, List.forall_mem_cons, List.forall_mem_map,
    List.forall_mem_flatMap, String.append_assoc]
  refine ⟨inner_vectorLines _ _, inner_append rfl, inner_append rfl,
    fun _ _ => ⟨inner_append rfl, inner_append rfl, List.forall_mem_nil _⟩, ?_, inner_resultLines _,
    inner_append rfl, ?_, fun _ _ => inner_append rfl, inner_ofList rfl, inner_ofList rfl,
    inner_empty, List.forall_mem_nil _⟩
  · split
    · exact List.forall_mem_singleton.2 (inner_append rfl)
    · exact List.forall_mem_nil _
  · split
    · exact List.forall_mem_nil _
    · exact List.forall_mem_singleton.2 (inner_ofList rfl)

theorem filterMap_mainLines {code : Section} (hname : isIdentifier code.routine.name) :
    (mainLines o code).filterMap definedName? = ["main_" ++ code.routine.name] := by
  have hline : definedName? ("int main_" ++ code.routine.name
      ++ "(int argc, char* argv[]) \x7b") = some ("main_" ++ code.routine.name) :=
    definedName?_definition int_mem_definedTypes
      (isNamePart_append (isNamePart_ofList rfl) (isNamePart_of_isIdentifier hname))
      (show _ = "int " ++ ("main_" ++ code.routine.name ++ ("(" ++
        "int argc, char* argv[]) \x7b")) by simp only [String.append_assoc]; rfl)
  simp only [mainLines, List.cons_append, List.nil_append, List.append_assoc]
  refine filterMap_function hline ?_
  simp only [List.forall_mem_append, List.forall_mem_cons, List.forall_mem_map,
    String.append_assoc]
  exact ⟨inner_ofList rfl, inner_ofList rfl, inner_ofList rfl, inner_ofList rfl,
    inner_vectorLines _ _, fun _ _ => inner_append rfl, inner_resultLines _, inner_ofList rfl,
    inner_append rfl, inner_ofList rfl, inner_ofList rfl, inner_ofList rfl, inner_append rfl,
    inner_ofList rfl, inner_append rfl, inner_append rfl, inner_ofList rfl, inner_ofList rfl,
    inner_ofList rfl, inner_empty, List.forall_mem_nil _⟩

theorem filterMap_mexDispatchLines (names : List String) :
    (mexDispatchLines names).filterMap definedName? = ["mexFunction"] := by
  have hline : definedName?
      "void mexFunction(int resc, mxArray *resv[], int argc, const mxArray *argv[]) \x7b" =
        some "mexFunction" :=
    definedName?_definition (show "void " ∈ definedTypes by decide) (isNamePart_ofList rfl)
      (show _ = "void " ++ ("mexFunction" ++ ("(" ++
        "int resc, mxArray *resv[], int argc, const mxArray *argv[]) \x7b")) from rfl)
  simp only [mexDispatchLines, List.cons_append, List.nil_append]
  rw [List.filterMap_cons_none (definedName?_of_inner (inner_ofList rfl))]
  refine filterMap_function hline ?_
  simp only [List.forall_mem_append, List.forall_mem_cons, List.forall_mem_flatMap,
    String.append_assoc]
  exact ⟨inner_append rfl, inner_ofList rfl, inner_ofList rfl, inner_append rfl, inner_ofList rfl,
    fun _ _ => ⟨inner_append rfl, inner_append rfl, inner_ofList rfl, List.forall_mem_nil _⟩,
    inner_ofList rfl, inner_append rfl, inner_ofList rfl, inner_ofList rfl, inner_empty,
    List.forall_mem_nil _⟩

theorem filterMap_mainDispatchLines (names : List String) :
    (mainDispatchLines names).filterMap definedName? = ["main"] := by
  have hline : definedName? "int main(int argc, char* argv[]) \x7b" = some "main" :=
    definedName?_definition int_mem_definedTypes (isNamePart_ofList rfl)
      (show _ = "int " ++ ("main" ++ ("(" ++ "int argc, char* argv[]) \x7b")) from rfl)
  simp only [mainDispatchLines, List.cons_append, List.nil_append]
  refine filterMap_function hline ?_
  simp only [List.forall_mem_append, List.forall_mem_cons, List.forall_mem_flatMap,
    String.append_assoc]
  exact ⟨inner_ofList rfl, inner_ofList rfl,
    fun _ _ => ⟨inner_append rfl, inner_append rfl, List.forall_mem_nil _⟩, inner_ofList rfl,
    inner_append rfl, inner_ofList rfl, inner_ofList rfl, inner_empty, List.forall_mem_nil _⟩

/-- The names of the functions that are generated for a routine. -/
def symbolsOf (o : Options) (name : String) : List String :=
  suffixes.map (name ++ ·) ++ (if o.withMex then ["mex_" ++ name] else [])
    ++ (if o.withMain then ["main_" ++ name] else [])

/-- The names of the functions that are generated for some routines. -/
def symbols (o : Options) (names : List String) : List String :=
  names.flatMap (symbolsOf o) ++ (if o.withMex then ["mexFunction"] else [])
    ++ (if o.withMain then ["main"] else [])

theorem filterMap_pieceLines {code : Section} (hname : isIdentifier code.routine.name) :
    ((Piece.whole code).lines o).filterMap definedName? = symbolsOf o code.routine.name := by
  simp only [Piece.lines, symbolsOf, List.filterMap_append, filterMap_routineLines hname]
  congr 1
  · congr 1
    split
    · exact filterMap_mexLines hname
    · rfl
  · split
    · exact filterMap_mainLines hname
    · rfl

/-- The functions that the text of a module defines, if it has no routine that was given up. -/
theorem filterMap_routineText {m : CodeModule} {codes : List Section}
    (hpieces : m.pieces = codes.map .whole)
    (hnames : ∀ code ∈ codes, isIdentifier code.routine.name) :
    m.routineText.filterMap definedName? =
      symbols m.options (codes.map (·.routine.name)) := by
  have hcodes : (m.pieces.flatMap (·.lines m.options)).filterMap definedName? =
      (codes.map (·.routine.name)).flatMap (symbolsOf m.options) := by
    rw [hpieces, List.flatMap_map, List.flatMap_map, List.filterMap_flatMap]
    exact List.flatMap_congr fun code hcode => filterMap_pieceLines (hnames code hcode)
  simp only [routineText, symbols, List.filterMap_append, hcodes]
  have hclose : (if m.options.cpp then [] else linkageClose).filterMap definedName? = [] := by
    refine filterMap_definedName?_eq_nil ?_
    split <;> simp [linkageClose, Inner]
  rw [hclose, List.append_nil]
  congr 1
  · congr 1
    split
    · exact filterMap_mexDispatchLines _
    · rfl
  · split
    · exact filterMap_mainDispatchLines _
    · rfl

/-! ## Names that meet -/

/-- A name that is made from the name `f` is a symbol of `g`. -/
def Meets (o : Options) (f g : String) : Prop :=
  (∃ s ∈ suffixes, s ≠ "" ∧ g = f ++ s) ∨
    (o.withMex ∧ ∃ s ∈ suffixes, "mex_" ++ f = g ++ s) ∨
    (o.withMain ∧ ∃ s ∈ suffixes, "main_" ++ f = g ++ s)

/-- Two symbols of some routines have the same name. -/
def Clash (o : Options) (names : List String) : Prop :=
  (∃ f ∈ names, ∃ g ∈ names, Meets o f g) ∨ (o.withMex ∧ "mexFunction" ∈ names) ∨
    (o.withMain ∧ "main" ∈ names)

variable {f g s t : String}

/-- No suffix ends another one. -/
theorem eq_of_append_suffix (hs : s ∈ suffixes) (ht : t ∈ suffixes) (hs' : s ≠ "") (ht' : t ≠ "")
    (h : f ++ s = g ++ t) : s = t := by
  have hend : ∀ s ∈ suffixes, ∀ t ∈ suffixes, s ≠ "" → t ≠ "" → s.toList <:+ t.toList → s = t := by
    decide +kernel
  have hlist : f.toList ++ s.toList = g.toList ++ t.toList := by
    simpa using congrArg String.toList h
  rcases List.suffix_or_suffix_of_suffix (List.suffix_append f.toList s.toList)
    (hlist ▸ List.suffix_append g.toList t.toList) with hst | hts
  · exact hend s hs t ht hs' ht' hst
  · exact (hend t ht s hs ht' hs' hts).symm

/-- A gateway never has the name of its own routine or of a description of it: an `m` is missing. -/
theorem prefix_append_ne {p : String} (hp : p ∈ ["mex_", "main_"]) (hs : s ∈ suffixes)
    (f : String) : p ++ f ≠ f ++ s := by
  intro h
  have hcount := congrArg (fun x : String => x.toList.count 'm') h
  have hpm : ∀ p ∈ ["mex_", "main_"], p.toList.count 'm' = 1 := by decide +kernel
  have hsm : ∀ s ∈ suffixes, s.toList.count 'm' = 0 := by decide +kernel
  simp only [String.toList_append, List.count_append, hpm p hp, hsm s hs] at hcount
  omega

theorem mem_symbolsOf {x : String} : x ∈ symbolsOf o f ↔ (∃ s ∈ suffixes, f ++ s = x) ∨
    (o.withMex ∧ x = "mex_" ++ f) ∨ (o.withMain ∧ x = "main_" ++ f) := by
  simp only [symbolsOf, List.mem_append, List.mem_map, or_assoc]
  refine or_congr Iff.rfl (or_congr ?_ ?_)
  · split <;> simp_all
  · split <;> simp_all

theorem mex_append_ne_main_append : "mex_" ++ f ≠ "main_" ++ g := by
  intro h
  simpa using congrArg String.toList h

theorem Meets.ne (h : Meets o f g) : f ≠ g := by
  rintro rfl
  rcases h with ⟨s, -, hs, h⟩ | ⟨-, s, hs, h⟩ | ⟨-, s, hs, h⟩
  · exact hs (by simpa using congrArg String.toList h)
  · exact prefix_append_ne (by decide) hs f h
  · exact prefix_append_ne (by decide) hs f h

theorem nodup_symbolsOf (o : Options) (f : String) : (symbolsOf o f).Nodup := by
  have hsuffixes : (suffixes.map (f ++ ·)).Nodup :=
    List.Nodup.map (fun _ _ h => (String.append_right_inj f).1 h) (by decide +kernel)
  have hgateway : ∀ p ∈ ["mex_", "main_"], p ++ f ∉ suffixes.map (f ++ ·) := by
    intro p hp hmem
    obtain ⟨s, hs, h⟩ := List.mem_map.1 hmem
    exact prefix_append_ne hp hs f h.symm
  have hmex := hgateway "mex_" (by decide)
  have hmain := hgateway "main_" (by decide)
  have hne : "mex_" ++ f ≠ "main_" ++ f := mex_append_ne_main_append
  unfold symbolsOf
  split <;> split <;> simp_all [List.nodup_append]

/-- Two routines have a symbol in common exactly if a name made from one is one of the other. -/
theorem exists_mem_symbolsOf_iff (hne : f ≠ g) :
    (∃ x ∈ symbolsOf o f, x ∈ symbolsOf o g) ↔ Meets o f g ∨ Meets o g f := by
  constructor
  · rintro ⟨x, hf, hg⟩
    rw [mem_symbolsOf] at hf hg
    rcases hf with ⟨s, hs, hf⟩ | ⟨ho, rfl⟩ | ⟨ho, rfl⟩
    · rcases hg with ⟨t, ht, hg⟩ | ⟨ho, hg⟩ | ⟨ho, hg⟩
      · have h : f ++ s = g ++ t := hf.trans hg.symm
        by_cases hs' : s = ""
        · subst hs'
          rw [String.append_empty] at h
          exact .inr (.inl ⟨t, ht, fun ht' => hne (by rw [h, ht', String.append_empty]), h⟩)
        · by_cases ht' : t = ""
          · subst ht'
            rw [String.append_empty] at h
            exact .inl (.inl ⟨s, hs, hs', h.symm⟩)
          · obtain rfl := eq_of_append_suffix hs ht hs' ht' h
            exact absurd ((String.append_left_inj s).1 h) hne
      · exact .inr (.inr (.inl ⟨ho, s, hs, (hf.trans hg).symm⟩))
      · exact .inr (.inr (.inr ⟨ho, s, hs, (hf.trans hg).symm⟩))
    · rcases hg with ⟨t, ht, hg⟩ | ⟨-, hg⟩ | ⟨-, hg⟩
      · exact .inl (.inr (.inl ⟨ho, t, ht, hg.symm⟩))
      · exact absurd ((String.append_right_inj _).1 hg) hne
      · exact absurd hg mex_append_ne_main_append
    · rcases hg with ⟨t, ht, hg⟩ | ⟨-, hg⟩ | ⟨-, hg⟩
      · exact .inl (.inr (.inr ⟨ho, t, ht, hg.symm⟩))
      · exact absurd hg.symm mex_append_ne_main_append
      · exact absurd ((String.append_right_inj _).1 hg) hne
  · have hmeets : ∀ {f g}, Meets o f g → ∃ x ∈ symbolsOf o f, x ∈ symbolsOf o g := by
      intro f g h
      simp only [mem_symbolsOf]
      rcases h with ⟨s, hs, -, h⟩ | ⟨ho, s, hs, h⟩ | ⟨ho, s, hs, h⟩
      · exact ⟨g, .inl ⟨s, hs, h.symm⟩, .inl ⟨"", by decide, String.append_empty⟩⟩
      · exact ⟨"mex_" ++ f, .inr (.inl ⟨ho, rfl⟩), .inl ⟨s, hs, h.symm⟩⟩
      · exact ⟨"main_" ++ f, .inr (.inr ⟨ho, rfl⟩), .inl ⟨s, hs, h.symm⟩⟩
    rintro (h | h)
    · exact hmeets h
    · obtain ⟨x, hg, hf⟩ := hmeets h
      exact ⟨x, hf, hg⟩

theorem disjoint_symbolsOf_iff (hne : f ≠ g) :
    (symbolsOf o f).Disjoint (symbolsOf o g) ↔ ¬(Meets o f g ∨ Meets o g f) := by
  rw [← exists_mem_symbolsOf_iff hne, List.disjoint_left]
  simp only [not_exists, not_and]

theorem nodup_flatMap_symbolsOf_iff {names : List String} (hnames : names.Nodup) :
    (names.flatMap (symbolsOf o)).Nodup ↔ ¬∃ f ∈ names, ∃ g ∈ names, Meets o f g := by
  rw [List.nodup_flatMap]
  constructor
  · rintro ⟨-, hdisjoint⟩ ⟨f, hf, g, hg, h⟩
    have hsymm : Std.Symm (Function.onFun List.Disjoint (symbolsOf o)) :=
      ⟨fun _ _ => List.Disjoint.symm⟩
    exact (disjoint_symbolsOf_iff h.ne).1 (hdisjoint.forall hf hg h.ne) (.inl h)
  · intro h
    refine ⟨fun f _ => nodup_symbolsOf o f, hnames.pairwise_of_forall_ne fun f hf g hg hne => ?_⟩
    refine (disjoint_symbolsOf_iff hne).2 ?_
    rintro (hmeets | hmeets)
    · exact h ⟨f, hf, g, hg, hmeets⟩
    · exact h ⟨g, hg, f, hf, hmeets⟩

/-- A dispatcher has the name of a routine, or no other symbol has its name. -/
theorem mem_flatMap_symbolsOf_iff {names : List String} {x : String}
    (hx : x ∈ ["mexFunction", "main"]) : x ∈ names.flatMap (symbolsOf o) ↔ x ∈ names := by
  have hsuffix : ∀ x ∈ ["mexFunction", "main"], ∀ s ∈ suffixes, s.toList <:+ x.toList → s = "" := by
    decide +kernel
  have hstart : ∀ x ∈ ["mexFunction", "main"], ∀ p ∈ ["mex_", "main_"],
      ¬p.toList <+: x.toList := by
    decide +kernel
  simp only [List.mem_flatMap, mem_symbolsOf]
  constructor
  · rintro ⟨f, hf, ⟨s, hs, rfl⟩ | ⟨-, rfl⟩ | ⟨-, rfl⟩⟩
    · obtain rfl := hsuffix _ hx s hs (by simp)
      rwa [String.append_empty]
    · exact absurd (by simp) (hstart _ hx "mex_" (by decide))
    · exact absurd (by simp) (hstart _ hx "main_" (by decide))
  · exact fun hmem => ⟨x, hmem, .inl ⟨"", by decide, String.append_empty⟩⟩

theorem nodup_symbols_iff {names : List String} (hnames : names.Nodup) :
    (symbols o names).Nodup ↔ ¬Clash o names := by
  have hmex : "mexFunction" ∈ names.flatMap (symbolsOf o) ↔ "mexFunction" ∈ names :=
    mem_flatMap_symbolsOf_iff (by decide)
  have hmain : "main" ∈ names.flatMap (symbolsOf o) ↔ "main" ∈ names :=
    mem_flatMap_symbolsOf_iff (by decide)
  rw [Clash, not_or, ← nodup_flatMap_symbolsOf_iff hnames, ← hmex, ← hmain, symbols]
  generalize names.flatMap (symbolsOf o) = made
  have hnot : ∀ x, (∀ a ∈ made, ¬a = x) ↔ x ∉ made := fun x =>
    ⟨fun h hx => h x hx rfl, fun h a ha hax => h (hax ▸ ha)⟩
  split <;> split <;> simp_all [List.nodup_append, imp_and, forall_and]

/-! ## Accepted routines -/

variable {m m' m₀ : CodeModule} {fs : List (Routine Float)}

/-- What an accepted routine adds to the text. -/
theorem Outcome.of_ok {f : Routine Float} (h : Outcome f m (.ok ()) m') :
    ∃ code : Section, m'.pieces = m.pieces ++ [.whole code] ∧ code.routine = f ∧
      f.validate = .ok () ∧ f.name ∉ m.names := by
  cases h with
  | @added hf hname code hroutine hcode =>
    refine ⟨code, ?_, hroutine, hf, fun hmem => ?_⟩
    · rw [append, pieces_register]
      exact congrArg (· ++ [.whole code]) (pieces_register m f.requests)
    · obtain ⟨code', hcode', heq⟩ := List.mem_map.1 hmem
      exact hname (List.any_eq_true.2 ⟨code', hcode', decide_eq_true heq⟩)

theorem names_of_pieces {codes : List Section} (h : m.pieces = codes.map .whole) :
    m.names = codes.map (·.routine.name) := by
  simp [names, sections, h, List.filterMap_map]

/-- If all routines are accepted, the text has one piece for each of them, and their names are
different. -/
theorem exists_codes (hm : m₀.reals.Sound) {codes₀ : List Section}
    (hpieces : m₀.pieces = codes₀.map .whole) (hnames : m₀.names.Nodup)
    (hrun : (addEach fs).run m₀ = (fs.map fun _ => .ok (), m)) :
    ∃ codes, m.pieces = (codes₀ ++ codes).map .whole ∧ codes.map (·.routine) = fs ∧
      (∀ f ∈ fs, f.validate = .ok ()) ∧ m.names.Nodup ∧ m.options = m₀.options := by
  induction fs generalizing m₀ codes₀ with
  | nil =>
    obtain rfl : m₀ = m := congrArg Prod.snd hrun
    exact ⟨[], by rw [hpieces, List.append_nil], rfl, by simp, hnames, rfl⟩
  | cons f fs ih =>
    rw [addEach_cons, List.map_cons, Prod.mk.injEq, List.cons.injEq] at hrun
    obtain ⟨⟨hf, hresults⟩, hlast⟩ := hrun
    have houtcome := outcome_add hm f
    have hreals := houtcome.sound_reals hm
    have hoptions := houtcome.extends.options
    rw [hf] at houtcome
    obtain ⟨code, hpiece, hroutine, hvalid, hnew⟩ := houtcome.of_ok
    have hpieces' : ((add f).run.run m₀).2.pieces = (codes₀ ++ [code]).map .whole := by
      rw [hpiece, hpieces, List.map_append, List.map_singleton]
    have hnames' : ((add f).run.run m₀).2.names.Nodup := by
      rw [names_of_pieces hpieces', List.map_append, ← names_of_pieces hpieces,
        List.map_singleton, hroutine, List.nodup_append_comm]
      exact List.nodup_cons.2 ⟨hnew, hnames⟩
    obtain ⟨codes, hcodes, hroutines, hvalids, hnodup, ho⟩ :=
      ih hreals hpieces' hnames' (Prod.ext hresults hlast)
    refine ⟨code :: codes, ?_, ?_, ?_, hnodup, ho.trans hoptions⟩
    · rw [hcodes, List.append_assoc, List.singleton_append]
    · rw [List.map_cons, hroutine, hroutines]
    · exact List.forall_mem_cons.2 ⟨hvalid, hvalids⟩

/-- The text of a module whose routines were all accepted defines their symbols. -/
theorem filterMap_of_accepted {o : Options} {name parent : String}
    (hcreate : create o name parent = .ok m₀)
    (hrun : (addEach fs).run m₀ = (fs.map fun _ => .ok (), m)) :
    m.routineText.filterMap definedName? = symbols o (fs.map (·.name)) ∧
      m.names = fs.map (·.name) ∧ m.names.Nodup := by
  obtain ⟨ho, -, hpieces, hsound⟩ := of_create (κ := fun _ => .scalar) hcreate
  have hpieces₀ : m₀.pieces = ([] : List Section).map .whole := hpieces
  have hnames₀ : m₀.names.Nodup := by
    rw [names_of_pieces hpieces₀]
    exact List.nodup_nil
  obtain ⟨codes, hcodes, hroutines, hvalid, hnames, ho'⟩ :=
    exists_codes hsound.reals hpieces₀ hnames₀ hrun
  rw [List.nil_append] at hcodes
  have hmap : codes.map (·.routine.name) = fs.map (·.name) := by
    rw [← hroutines, List.map_map]
    rfl
  have hidentifier : ∀ code ∈ codes, isIdentifier code.routine.name := fun code hcode =>
    (Routine.validate_ok_iff.1 (hvalid _ (hroutines ▸ List.mem_map_of_mem hcode))).1
  have htext := filterMap_routineText hcodes hidentifier
  rw [hmap, ho', ho] at htext
  exact ⟨htext, (names_of_pieces hcodes).trans hmap, hnames⟩

/-- The functions that a module defines for its routines have different names exactly if no name
that is made from the name of a routine is a symbol of another one, and no routine has the name of a
dispatcher. -/
theorem symbols_distinct_iff {o : Options} {name parent : String}
    (hcreate : create o name parent = .ok m₀)
    (hrun : (addEach fs).run m₀ = (fs.map fun _ => .ok (), m)) :
    (∀ g, m.generate = .ok g → g.source = textOfLines (m.preamble ++ m.routineText)) ∧
      m.routineText.filterMap definedName? = symbols o (fs.map (·.name)) ∧
      ((m.routineText.filterMap definedName?).Nodup ↔ ¬Clash o (fs.map (·.name))) := by
  obtain ⟨htext, hnames, hnodup⟩ := filterMap_of_accepted hcreate hrun
  refine ⟨fun g hg => source_of_generate hg, htext, ?_⟩
  rw [htext]
  exact nodup_symbols_iff (hnames ▸ hnodup)

/-- A routine that does nothing. -/
def idle (name : String) : Routine Float :=
  { name, inputs := [], outputs := [], scalars := 0, work := 0, iwork := 0, body := [] }

/-- Idle routines with different names are accepted by a new module. -/
theorem exists_run_idle {o : Options} (hstem : o.stem = "") (hreal : o.realType = "double")
    (hdir : o.dir ≠ "") {names : List String} (hnames : names.Nodup)
    (hidentifier : ∀ name ∈ names, isIdentifier name) : ∃ m₀ m,
      create o "idle" "" = .ok m₀ ∧
        (addEach (names.map idle)).run m₀ = ((names.map idle).map fun _ => .ok (), m) := by
  obtain ⟨m₀, hcreate⟩ : ∃ m₀, create o "idle" "" = .ok m₀ :=
    ⟨_, create_ok_iff.2 ⟨⟨validate_options hstem hreal hdir, by decide +kernel,
      by decide +kernel⟩, rfl⟩⟩
  obtain ⟨-, -, hpieces, hsound⟩ := of_create (κ := fun _ => .scalar) hcreate
  refine ⟨m₀, _, hcreate, Prod.ext (addEach_ok hsound.reals ?_ ?_) rfl⟩
  · intro f hf
    obtain ⟨name, hname, rfl⟩ := List.mem_map.1 hf
    refine ⟨Routine.validate_ok_iff.2 ⟨hidentifier name hname, ?_, ?_⟩, ?_, ?_⟩
    · simp [idle]
    · simp [idle]
    · change (0 : Int64) ≤ nameCapacity
      decide
    · simp [idle]
  · rw [sections, hpieces, List.map_map]
    simpa [Function.comp_def, idle] using hnames

/-- Two routines with both gateways, whose symbols are all different. -/
theorem symbols_distinct_works : ∃ m₀ m,
    create { withMex := true, withMain := true } "idle" "" = .ok m₀ ∧
      (addEach [idle "f", idle "f_works"]).run m₀ = ([.ok (), .ok ()], m) ∧
      (m.routineText.filterMap definedName?).Nodup ∧
      ¬Clash { withMex := true, withMain := true } ["f", "f_works"] := by
  obtain ⟨m₀, m, hcreate, hrun⟩ := exists_run_idle (o := { withMex := true, withMain := true })
    rfl rfl (by decide) (show ["f", "f_works"].Nodup by decide) (by decide +kernel)
  obtain ⟨-, htext, hiff⟩ := symbols_distinct_iff hcreate hrun
  have hnodup : (m.routineText.filterMap definedName?).Nodup := by
    rw [htext]
    decide +kernel
  exact ⟨m₀, m, hcreate, hrun, hnodup, hiff.1 hnodup⟩

/-- The size function of `f` has the name of the routine `f_work`, and both are accepted. -/
theorem symbols_not_distinct : ∃ m₀ m g, create {} "idle" "" = .ok m₀ ∧
    (addEach [idle "f", idle "f_work"]).run m₀ = ([.ok (), .ok ()], m) ∧ m.generate = .ok g ∧
      g.source = textOfLines (m.preamble ++ m.routineText) ∧
      ¬(m.routineText.filterMap definedName?).Nodup := by
  obtain ⟨m₀, m, hcreate, hrun⟩ := exists_run_idle (o := {}) rfl rfl (by decide)
    (show ["f", "f_work"].Nodup by decide) (by decide +kernel)
  obtain ⟨htext, hnames, -⟩ := filterMap_of_accepted hcreate hrun
  have hsections : m.sections.isEmpty = false := by
    rw [List.isEmpty_eq_false_iff]
    rintro h
    rw [names, h] at hnames
    cases hnames
  obtain ⟨g, hg⟩ : ∃ g, m.generate = .ok g := ⟨_, by rw [generate, hsections]; rfl⟩
  refine ⟨m₀, m, g, hcreate, hrun, hg, source_of_generate hg, ?_⟩
  rw [htext]
  decide +kernel

end Tangent.CodeModule
