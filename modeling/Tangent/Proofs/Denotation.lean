import Mathlib
import Tangent.Proofs.Dependencies
import Tangent.Proofs.Slopes

/-!
# Evaluation is the meaning of the graph

An expression has a value as soon as its symbols have one (`Node.eval`), and that is a recursion
through its operands, which knows nothing of sharing. Evaluation along a tape is one pass over a
list, and a node that is shared gets its value once. At every position of a tape without further
symbols the pass gives the value of the node that stands there (`Layout.valueAt_eq_eval`), where
each input symbol has the value that is given in its place (`Binds`).
-/

namespace Tangent.Tape

variable {K : Type} {inputs outputs : List (SparseMatrix K)} {args : List (List K)}
  {env : Nat → K} {t : Tape K}

/-! ## The values of the input symbols -/

/-- Every input symbol has the value that is given in its place. -/
def Binds (inputs : List (SparseMatrix K)) (args : List (List K)) (env : Nat → K) : Prop :=
  ∀ i k n v, nonzero? inputs i k = some n → item? args i k = some v → env n.id = v

/-- The arguments do not go with the inputs: there are more or fewer of them, or one has more or
fewer values than its input has nonzeros. -/
def Misshapen (inputs : List (SparseMatrix K)) (args : List (List K)) : Prop :=
  args.length ≠ inputs.length ∨
    ∃ (i : Nat) (arg : List K) (m : SparseMatrix K), args[i]? = some arg ∧ inputs[i]? = some m ∧
      arg.length ≠ m.nnz

theorem not_misshapen_iff :
    ¬Misshapen inputs args ↔ args.map List.length = inputs.map (·.nnz) := by
  constructor
  · intro h
    rw [Misshapen, not_or, not_not] at h
    refine List.ext_getElem (by simpa using h.1) fun i hi hi' => ?_
    rw [List.length_map] at hi hi'
    rw [List.getElem_map, List.getElem_map]
    by_contra hne
    exact h.2 ⟨i, _, _, List.getElem?_eq_getElem hi, List.getElem?_eq_getElem hi', hne⟩
  · rintro h (hlen | ⟨i, arg, m, harg, hm, hne⟩)
    · exact hlen (by simpa using congrArg List.length h)
    · have hi := congrArg (·[i]?) h
      simp only [List.getElem?_map, harg, hm, Option.map_some] at hi
      exact hne (Option.some.inj hi)

/-- Arguments that go with the inputs bind their symbols one by one. -/
theorem binds_iff (hargs : args.map List.length = inputs.map (·.nnz)) :
    Binds inputs args env ↔ ∀ p ∈ (nonzerosOf inputs).zip args.flatten, env p.1.id = p.2 := by
  have hshape : (inputs.map (·.nonzeros)).map List.length = args.map List.length := by
    rw [hargs, List.map_map]
    rfl
  rw [nonzerosOf, List.flatMap]
  constructor
  · rintro h ⟨n, v⟩ hp
    obtain ⟨i, k, hn, hv⟩ := (mem_zip_flatten hshape).1 hp
    exact h i k n v hn hv
  · intro h i k n v hn hv
    exact h (n, v) ((mem_zip_flatten hshape).2 ⟨i, k, hn, hv⟩)

/-- Symbols with different numbers can be bound to any values. -/
theorem exists_binds [Scalar K] (hd : ((nonzerosOf inputs).map Node.id).Nodup)
    (hargs : args.map List.length = inputs.map (·.nnz)) : ∃ env, Binds inputs args env := by
  set given := (nonzerosOf inputs).zip args.flatten
  have hlen : (nonzerosOf inputs).length = args.flatten.length := by
    rw [length_nonzerosOf, List.length_flatten, hargs]
  have hids : (given.map (·.1.id)).Nodup := by
    rw [← List.map_fst_zip (le_of_eq hlen), List.map_map] at hd
    exact hd
  refine ⟨fun id => (given.find? (·.1.id == id)).elim Scalar.zero (·.2),
    (binds_iff hargs).2 fun p hp => ?_⟩
  obtain ⟨q, hq⟩ : ∃ q, given.find? (·.1.id == p.1.id) = some q :=
    Option.isSome_iff_exists.1 (List.find?_isSome.2 ⟨p, hp, by simp⟩)
  have hqp : q = p := List.inj_on_of_nodup_map hids (List.mem_of_find?_eq_some hq) hp
    (by simpa using List.find?_some hq)
  rw [hq, hqp, Option.elim_some]

/-! ## The values along a tape -/

variable [Scalar K] {G : Graph K}

/-- The value of an input nonzero is the one that its symbol is bound to. -/
theorem Layout.valueAt_input (h : t.Layout false)
    (hargs : args.map List.length = t.inputs.map (·.nnz)) (henv : Binds t.inputs args env) {i : Nat}
    {n : Node K} (hi : i < t.width) (hn : t.nodes[i]? = some n) :
    t.valueAt args i = n.eval env := by
  rw [h.getElem?_input hi] at hn
  have hlt : i < args.flatten.length := by rwa [length_flatten_args hargs]
  have hv : args.flatten[i]? = some args.flatten[i] := List.getElem?_eq_getElem hlt
  have hbound := (binds_iff hargs).1 henv (n, args.flatten[i])
    (List.mem_of_getElem? (List.getElem?_zip_eq_some.2 ⟨hn, hv⟩))
  have hsym := h.symbols n (List.mem_of_getElem? hn)
  rw [valueAt, Array.getD_eq_getD_getElem?, getElem?_values_input hargs hi, hv, Option.getD_some]
  cases n with
  | symbol id name => exact hbound.symm
  | _ => cases hsym

/-- At every position, evaluation gives the value of the node that stands there. -/
theorem Layout.valueAt_eq_eval (h : t.Layout false) (hG : ∀ n ∈ t.nodes, n ∈ G)
    (hargs : args.map List.length = t.inputs.map (·.nnz)) (henv : Binds t.inputs args env) {i : Nat}
    {n : Node K} (hn : t.nodes[i]? = some n) : t.valueAt args i = n.eval env := by
  induction i using Nat.strongRecOn generalizing n with
  | ind i ih =>
  rcases Nat.lt_or_ge i t.width with hi | hi
  · exact h.valueAt_input hargs henv hi hn
  · have hs : t.steps[i]? = some (t.stepOf n) := by
      rw [steps, List.getElem?_map, hn, Option.map_some]
    have hstep : t.valueAt args i = (t.stepOf n).eval (t.values args) :=
      h.getD_values_step hargs hi hs
    -- An operand stands at its position, before the node.
    have hoperand : ∀ x ∈ n.operands, t.valueAt args (t.position x) = x.eval env := fun x hx => by
      obtain ⟨hlt, hx⟩ := h.getElem?_operand_of_graph hG hn hx
      exact ih _ hlt hx
    rw [hstep]
    cases n with
    | const id v => rfl
    | symbol id name =>
      have hmem : .symbol id name ∈ t.nodes.drop t.width := by
        refine List.mem_of_getElem? (i := i - t.width) ?_
        rw [List.getElem?_drop, Nat.add_sub_cancel' hi, hn]
      cases (h.rest _ hmem rfl).1
    | unary id u x =>
      exact congrArg (Scalar.unary u) (hoperand x (by simp [Node.operands]))
    | binary id op x y =>
      exact congrArg₂ (Scalar.binary op) (hoperand x (by simp [Node.operands]))
        (hoperand y (by simp [Node.operands]))

/-- The values of the output nonzeros are those of their nodes. -/
theorem Layout.map_valueAt_results (h : t.Layout false) (hG : ∀ n ∈ t.nodes, n ∈ G)
    (hout : ∀ n ∈ nonzerosOf t.outputs, n ∈ G)
    (hargs : args.map List.length = t.inputs.map (·.nnz)) (henv : Binds t.inputs args env) :
    t.results.map (·.map (t.valueAt args)) = t.outputs.map (·.nonzeros.map (·.eval env)) := by
  rw [results, List.map_map]
  refine List.map_congr_left fun m hm => ?_
  rw [Function.comp, List.map_map]
  refine List.map_congr_left fun n hn => ?_
  have hmem : n ∈ nonzerosOf t.outputs := List.mem_flatMap.2 ⟨m, hm, hn⟩
  exact h.valueAt_eq_eval hG hargs henv
    (getElem?_position_of_graph hG (hout n hmem) (h.outputs n hmem))

/-- Evaluation of a frozen graph fails exactly if the arguments do not go with the inputs. Otherwise
it gives, for every output nonzero, the value of its expression under any assignment that binds the
input symbols to the arguments; and there is such an assignment. -/
theorem eval_eq_denotation [Numeral K] (G : Graph K) {name : String}
    (ht : freeze name inputs outputs = .ok t) (hin : ∀ n ∈ nonzerosOf inputs, n ∈ G)
    (hout : ∀ n ∈ nonzerosOf outputs, n ∈ G) (args : List (List K)) :
    ((∃ e, t.eval args = .error e) ↔ Misshapen inputs args) ∧
      (¬Misshapen inputs args → (∃ env, Binds inputs args env) ∧
        ∀ env, Binds inputs args env →
          t.eval args = .ok (outputs.map (·.nonzeros.map (·.eval env)))) := by
  have h := layout_of_layOut ht
  obtain ⟨-, rfl, rfl, -⟩ := layOut_ok ht
  have hG := h.mem_graph hin hout
  have hok : ¬Misshapen t.inputs args → (∃ env, Binds t.inputs args env) ∧
      ∀ env, Binds t.inputs args env →
        t.eval args = .ok (t.outputs.map (·.nonzeros.map (·.eval env))) := fun hshape => by
    rw [not_misshapen_iff] at hshape
    exact ⟨exists_binds h.distinct hshape, fun env henv =>
      eval_ok_iff.2 ⟨hshape, (h.map_valueAt_results hG hout hshape henv).symm⟩⟩
  refine ⟨⟨?_, fun hshape => ?_⟩, hok⟩
  · rintro ⟨e, he⟩
    by_contra hshape
    obtain ⟨⟨env, henv⟩, heval⟩ := hok hshape
    rw [heval env henv] at he
    cases he
  · cases he : t.eval args with
    | error e => exact ⟨e, rfl⟩
    | ok vals => exact absurd hshape (not_misshapen_iff.2 (eval_ok_iff.1 he).1)

/-- The product of the diamond is read twice and evaluated once. Without its second argument, the
diamond cannot be evaluated. -/
theorem eval_eq_denotation_diamond :
    freeze "diamond" Diamond.tape.inputs Diamond.tape.outputs = .ok Diamond.tape ∧
      (∀ n ∈ nonzerosOf Diamond.tape.inputs, n ∈ Diamond.graph) ∧
      (∀ n ∈ nonzerosOf Diamond.tape.outputs, n ∈ Diamond.graph) ∧
      ∀ x y : Float, (∃ e, Diamond.tape.eval [[x]] = .error e) ∧
        ¬Misshapen Diamond.tape.inputs [[x], [y]] ∧
        Diamond.tape.eval [[x], [y]] =
          .ok [[Scalar.unary .sin (x * y) + x * y], [x], [Scalar.unary .sin (x * y)]] := by
  have hdenotes := eval_eq_denotation Diamond.graph Diamond.freeze_eq Diamond.inputs_mem
    Diamond.outputs_mem
  refine ⟨Diamond.freeze_eq, Diamond.inputs_mem, Diamond.outputs_mem, fun x y => ?_⟩
  have hshape : ¬Misshapen Diamond.tape.inputs [[x], [y]] := not_misshapen_iff.2 rfl
  obtain ⟨⟨env, henv⟩, heval⟩ := (hdenotes [[x], [y]]).2 hshape
  have hx : env 1 = x := henv 0 0 _ _ rfl rfl
  have hy : env 2 = y := henv 1 0 _ _ rfl rfl
  subst hx hy
  exact ⟨(hdenotes [[env 1]]).1.2 (.inl (by simp [Diamond.tape])), hshape, heval env henv⟩

end Tangent.Tape
