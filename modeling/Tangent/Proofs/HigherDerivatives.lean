import Tangent.Proofs.Scope

/-!
# Derivatives of derivatives

The derivatives of a tape along seeds over its inputs are expressions over its inputs, so with the
same inputs they are the outputs of a tape again (`Tape.OverInputs.exists_freeze`). That tape has
derivatives in its turn, and so on to any order (`Tape.OverInputs.of_derived`).
-/

set_option linter.unusedSectionVars false

namespace Tangent

variable {K : Type} [Scalar K]

namespace Tape

/-- The inputs, as a set of symbols. -/
def inputSymbols (t : Tape K) : Set (Node K) :=
  {x | x ∈ nonzerosOf t.inputs}

/-- The inputs are distinct symbols, and there are no others on the tape or in the outputs. -/
structure OverInputs (t : Tape K) : Prop where
  symbols : ∀ n ∈ nonzerosOf t.inputs, n.isSymbol
  distinct : ((nonzerosOf t.inputs).map Node.id).Nodup
  nodes : ∀ n ∈ t.nodes, n.Over t.inputSymbols

/-- One tape comes from another by differentiating `k` times: each time along accepted seeds over
the inputs, by any builder and from any side, and then taking derivatives as outputs. -/
inductive Derived [Numeral K] (t : Tape K) : Nat → Tape K → Prop
  | refl : Derived t 0 t
  | step {k : Nat} {t' t'' : Tape K} {b : Builder} {side : Side}
      {seeds sens : List (List (SparseMatrix K))} {next next' : Nat} {name : String}
      {outputs : List (SparseMatrix K)} (h : Derived t k t')
      (hseeds : Builder.SeedsOver t'.inputSymbols seeds)
      (hrun : (b.differentiate t' side seeds).run next = (.ok sens, next'))
      (houtputs : outputs ⊆ sens.flatten)
      (hfreeze : freeze name t'.inputs outputs = .ok t'') : Derived t (k + 1) t''

variable {t : Tape K}

theorem over_inputSymbols_of_mem {n : Node K} (hs : n.isSymbol) (hn : n ∈ nonzerosOf t.inputs) :
    n.Over t.inputSymbols := by
  rw [Node.over_iff, Node.operands_of_isSymbol hs]
  exact ⟨fun _ => hn, by simp⟩

theorem overInputs_of_freeze [Numeral K] {G : Graph K} {name : String}
    {inputs outputs : List (SparseMatrix K)} (h : freeze name inputs outputs = .ok t)
    (hin : ∀ n ∈ nonzerosOf inputs, n ∈ G) (hout : ∀ n ∈ nonzerosOf outputs, n ∈ G) :
    t.OverInputs := by
  obtain ⟨-, rfl, rfl, -⟩ := layOut_ok h
  have hl := layout_of_layOut h
  have hfree := hl.not_free (hl.mem_graph hin hout) hout
  have hsymbols : ∀ n ∈ nonzerosOf t.inputs, n.Over t.inputSymbols := fun n hn =>
    over_inputSymbols_of_mem (hl.symbols n hn) hn
  refine ⟨hl.symbols, hl.distinct, ?_⟩
  refine hl.inherits (Node.Over t.inputSymbols) (fun _ hm _ hx => hm.operand hx) hsymbols ?_
  rintro r hr s ⟨hs, hrs⟩
  by_contra hmem
  exact hfree s ⟨hs, hmem, r, hr, hrs⟩

namespace OverInputs

/-- Expressions over the inputs are the outputs of a tape with the same inputs. -/
theorem exists_freeze [Numeral K] (h : t.OverInputs) (name : String)
    {outputs : List (SparseMatrix K)} (hout : ∀ n ∈ nonzerosOf outputs, n.Over t.inputSymbols) :
    ∃ t', freeze name t.inputs outputs = .ok t' ∧ t'.inputs = t.inputs ∧ t'.OverInputs := by
  rcases layOut_of_nodup name outputs h.symbols h.distinct with ⟨t', ht'⟩ | ⟨s, -, hfree, -⟩
  · have hl := layout_of_layOut ht'
    obtain ⟨-, hinputs, houtputs, -⟩ := layOut_ok ht'
    refine ⟨t', ht', hinputs, hl.symbols, hl.distinct, ?_⟩
    have hin : t'.inputSymbols = t.inputSymbols := by rw [inputSymbols, hinputs, inputSymbols]
    rw [hin]
    refine hl.inherits (Node.Over t.inputSymbols) (fun _ hm _ hx => hm.operand hx) ?_ ?_
    · rw [hinputs]
      exact fun n hn => over_inputSymbols_of_mem (h.symbols n hn) hn
    · rw [houtputs]
      exact hout
  · obtain ⟨hs, hmem, r, hr, hrs⟩ := hfree
    exact absurd (hout r hr ⟨hs, hrs⟩) hmem

/-- A derivative of any order has the same inputs, and is over them. -/
theorem of_derived [Numeral K] (h : t.OverInputs) {k : Nat} {t' : Tape K} (hd : t.Derived k t') :
    t'.OverInputs ∧ t'.inputs = t.inputs := by
  induction hd with
  | refl => exact ⟨h, rfl⟩
  | @step k t' t'' b side seeds sens next next' name outputs _ hseeds hrun houtputs hfreeze ih =>
    obtain ⟨h', hinputs⟩ := ih
    have hsens := Builder.always_differentiate h'.nodes hseeds side hrun
    obtain ⟨_, ht, hsame, hover⟩ := h'.exists_freeze name (Builder.over_of_subset hsens houtputs)
    obtain rfl := Except.ok.inj (hfreeze.symm.trans ht)
    exact ⟨hover, hsame.trans hinputs⟩

/-- From a derivative of any order, derivatives along accepted seeds over the inputs are there, and
any of them are the outputs of a derivative of the next order. -/
theorem exists_derived_succ [Numeral K] (h : t.OverInputs) {k : Nat} {t' : Tape K}
    (hd : t.Derived k t') (b : Builder) {side : Side} {seeds : List (List (SparseMatrix K))}
    (hc : t'.checkSeeds side seeds = .ok ()) (hseeds : Builder.SeedsOver t.inputSymbols seeds)
    (next : Nat) :
    ∃ sens next', (b.differentiate t' side seeds).run next = (.ok sens, next') ∧
      ∀ (name : String) (outputs : List (SparseMatrix K)), outputs ⊆ sens.flatten →
        ∃ t'', Tape.freeze name t.inputs outputs = .ok t'' ∧ t.Derived (k + 1) t'' := by
  obtain ⟨h', hinputs⟩ := h.of_derived hd
  have hseeds' : Builder.SeedsOver t'.inputSymbols seeds := by
    rwa [inputSymbols, hinputs]
  have hrun := Builder.differentiate_run (b := b) hc next
  refine ⟨_, _, hrun, fun name outputs houtputs => ?_⟩
  have hsens := Builder.always_differentiate h'.nodes hseeds' side hrun
  obtain ⟨t'', ht, -⟩ := h'.exists_freeze name (Builder.over_of_subset hsens houtputs)
  exact ⟨t'', hinputs ▸ ht, .step hd hseeds' hrun houtputs ht⟩

end OverInputs

end Tape

/-- Nothing that a builder makes has symbols that were not there before: neither a single operation,
nor simplified expressions, nor derivatives. So the derivatives of a tape along seeds over its
inputs can be frozen with the same inputs, and those of what results, to any order. -/
theorem Builder.no_symbol_introduced [Numeral K] (b : Builder) :
    (∀ (c : Opcode) (operands : List (Node K)), (b.apply c operands).Always fun n =>
      n.symbols ⊆ Node.symbolsOf operands) ∧
    (∀ nodes : List (Node K), (b.simplify nodes).Always fun out =>
      Node.symbolsOf out ⊆ Node.symbolsOf nodes) ∧
    (∀ (t : Tape K) (seeds : List (List (SparseMatrix K))),
      let given := Node.symbolsOf (t.nodes ++ seeds.flatMap Tape.nonzerosOf)
      ((b.forward t seeds).Always fun sens =>
        Node.symbolsOf (sens.flatMap Tape.nonzerosOf) ⊆ given) ∧
      ((b.backward t seeds).Always fun sens =>
        Node.symbolsOf (sens.flatMap Tape.nonzerosOf) ⊆ given)) ∧
    (∀ output input : SparseMatrix K, (b.jacobian output input).Always fun jac =>
      Node.symbolsOf jac.nonzeros ⊆ Node.symbolsOf (output.nonzeros ++ input.nonzeros)) ∧
    ∀ (G : Graph K) (name : String) (inputs outputs : List (SparseMatrix K)) (t : Tape K),
      (∀ n ∈ Tape.nonzerosOf inputs, n ∈ G) → (∀ n ∈ Tape.nonzerosOf outputs, n ∈ G) →
      Tape.freeze name inputs outputs = .ok t →
      ∀ (k : Nat) (t' : Tape K), t.Derived k t' →
        ∀ (side : Side) (seeds : List (List (SparseMatrix K))) (next : Nat),
          t'.checkSeeds side seeds = .ok () → SeedsOver t.inputSymbols seeds →
          ∃ sens next', (b.differentiate t' side seeds).run next = (.ok sens, next') ∧
            ∀ (name' : String) (outputs' : List (SparseMatrix K)), outputs' ⊆ sens.flatten →
              ∃ t'', Tape.freeze name' inputs outputs' = .ok t'' ∧ t.Derived (k + 1) t'' := by
  refine ⟨fun c operands => ?_, fun nodes => ?_, fun t seeds => ?_, fun output input => ?_, ?_⟩
  · exact always_apply c fun x hx => Node.over_symbolsOf hx
  · exact fun next => Node.symbolsOf_subset_iff.2
      (always_simplify (fun n hn => Node.over_symbolsOf hn) next)
  · exact ⟨symbolsOf_differentiate b t .input seeds, symbolsOf_differentiate b t .output seeds⟩
  · exact fun _ _ _ hrun => Node.symbolsOf_subset_iff.2 (always_jacobian
      (fun n hn => Node.over_symbolsOf (List.mem_append_left _ hn))
      (fun n hn => Node.over_symbolsOf (List.mem_append_right _ hn)) hrun)
  · intro G name inputs outputs t hin hout ht k t' hd side seeds next hc hseeds
    obtain ⟨-, rfl, rfl, -⟩ := Tape.layOut_ok ht
    exact (Tape.overInputs_of_freeze ht hin hout).exists_derived_succ hd b hc hseeds next

/-- The derivatives of the diamond along its own inputs, and the derivatives of those. -/
theorem Builder.no_symbol_introduced_diamond :
    let t := Tape.Diamond.tape
    (∀ n ∈ Tape.nonzerosOf t.inputs, n ∈ Tape.Diamond.graph) ∧
      (∀ n ∈ Tape.nonzerosOf t.outputs, n ∈ Tape.Diamond.graph) ∧
      Tape.freeze "diamond" t.inputs t.outputs = .ok t ∧
      ∃ sens sens' next next' t' t'', (forward ⟨1⟩ t [t.inputs]).run 6 = (.ok sens, next) ∧
        Tape.freeze "first" t.inputs sens.flatten = .ok t' ∧ t.Derived 1 t' ∧
        (forward ⟨1⟩ t' [t.inputs]).run next = (.ok sens', next') ∧
        Tape.freeze "second" t.inputs sens'.flatten = .ok t'' ∧ t.Derived 2 t'' := by
  have hall := (no_symbol_introduced (K := Float) ⟨1⟩).2.2.2.2 Tape.Diamond.graph "diamond" _ _ _
    Tape.Diamond.inputs_mem Tape.Diamond.outputs_mem Tape.Diamond.freeze_eq
  have hover : SeedsOver Tape.Diamond.tape.inputSymbols [Tape.Diamond.tape.inputs] := by
    intro seed hseed n hn
    obtain rfl := List.mem_singleton.1 hseed
    exact Tape.over_inputSymbols_of_mem
      ((Tape.layout_of_layOut Tape.Diamond.freeze_eq).symbols n hn) hn
  have haccepted : ∀ t' : Tape Float, t'.inputs = Tape.Diamond.tape.inputs →
      t'.checkSeeds .input [Tape.Diamond.tape.inputs] = .ok () := fun t' ht' =>
    Tape.checkSeeds_of_patterns (by simp [Tape.sideOf, ht'])
  obtain ⟨sens, next, hrun, hfreeze⟩ := hall 0 _ .refl .input _ 6 (haccepted _ rfl) hover
  obtain ⟨t', ht', hd'⟩ := hfreeze "first" _ (List.Subset.refl _)
  obtain ⟨sens', next', hrun', hfreeze'⟩ :=
    hall 1 _ hd' .input _ next (haccepted _ (Tape.layOut_ok ht').2.1) hover
  obtain ⟨t'', ht'', hd''⟩ := hfreeze' "second" _ (List.Subset.refl _)
  exact ⟨Tape.Diamond.inputs_mem, Tape.Diamond.outputs_mem, Tape.Diamond.freeze_eq, sens, sens',
    next, next', t', t'', hrun, ht', hd', hrun', ht'', hd''⟩

end Tangent
