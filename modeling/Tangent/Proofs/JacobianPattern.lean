import Mathlib
import Tangent.Proofs.Constructors
import Tangent.Proofs.Noninterference

/-!
# The pattern of a Jacobian is exact

The cells of a Jacobian are those of an output and an input that it needs, whatever chunk the input
falls into, and what a position needs is what its node reaches (`Layout.hasCell_iff_reaches`). Cells
make a well-formed pattern as long as they can be counted, and none of them is out of range, so
there is a pattern for every input and output (`Layout.exists_pattern`). A number that belongs to no
input or to no output is reported as such.
-/

namespace Tangent.Tape

variable {K : Type} {t : Tape K} {openEnded : Bool} {G : Graph K} {input output : Int64}

/-! ## Numbers in range -/

/-- The number is that of one of `count` things. -/
def InRange (k : Int64) (count : Nat) : Prop :=
  0 ≤ k.toInt ∧ k.toInt < count

instance (k : Int64) (count : Nat) : Decidable (InRange k count) :=
  inferInstanceAs (Decidable (_ ∧ _))

/-- Matrices as a machine can hold them. -/
structure Storable (matrices : List (SparseMatrix K)) : Prop where
  length_lt : matrices.length < 2 ^ 63
  nnz_lt : ∀ m ∈ matrices, m.nnz < Pattern.capacity.toNatClampNeg

theorem inRange_iff {k : Int64} {count : Nat} (hcount : count < 2 ^ 63) :
    InRange k count ↔ 0 ≤ k ∧ k < Int64.ofNat count := by
  rw [InRange, Int64.le_iff_toInt_le, Int64.lt_iff_toInt_lt, Int64.toInt_ofNat_of_lt hcount]
  rfl

/-- Without an input or an output of the given number, there is no pattern. -/
theorem jacobianPattern_of_not_inRange (hin : t.inputs.length < 2 ^ 63)
    (hout : t.outputs.length < 2 ^ 63) :
    (¬InRange input t.inputs.length → t.jacobianPattern input output =
      .issue (.sideRange t.name .input input t.inputs.length)) ∧
    (InRange input t.inputs.length → ¬InRange output t.outputs.length →
      t.jacobianPattern input output =
        .issue (.sideRange t.name .output output t.outputs.length)) := by
  simp only [inRange_iff hin, inRange_iff hout]
  unfold jacobianPattern
  simp only [← Bool.decide_and, decide_eq_true_eq]
  refine ⟨fun h => ?_, fun h h' => ?_⟩
  · rw [if_neg h]
    rfl
  · rw [if_pos h, if_neg h']
    rfl

/-! ## Cells and nodes -/

/-- An output has the position of its node. -/
theorem item?_results {j r q : Nat} :
    item? t.results j r = some q ↔ ∃ n, nonzero? t.outputs j r = some n ∧ t.position n = q := by
  rw [results, item?_map_nonzeros, Option.map_eq_some_iff]

/-- An input that stands at a place among all of them is the node at this position. -/
theorem Layout.getElem?_nodes_of_numbered (h : t.Layout openEnded) {p i c : Nat} {x : Node K}
    (hp : (numbered t.inputs)[p]? = some (i, c, x)) :
    t.nodes[p]? = some x ∧ nonzero? t.inputs i c = some x := by
  have hlt : p < t.width := length_numbered t ▸ (List.getElem?_eq_some_iff.1 hp).1
  obtain ⟨m, hm, hc, -⟩ := getElem?_numbered hp
  refine ⟨?_, nonzero?_eq_some.2 ⟨m, hm, hc⟩⟩
  rw [h.getElem?_input hlt, nonzerosOf, ← map_numbered, List.getElem?_map, hp]
  rfl

/-- The cells of the pattern are those of an output and an input that it reaches. -/
theorem Layout.hasCell_iff_reaches (h : t.Layout openEnded) (hG : ∀ n ∈ t.nodes, n ∈ G)
    (hout : ∀ n ∈ nonzerosOf t.outputs, n ∈ G) {p : Pattern}
    (hp : t.jacobianPattern input output = .ok p) (hnnz : p.nnz < 2 ^ 63) {cell : Cell} :
    p.HasCell cell ↔ ∃ r c n x, nonzero? t.outputs output.toNatClampNeg r = some n ∧
      nonzero? t.inputs input.toNatClampNeg c = some x ∧ n.Reaches x ∧
        cell = { row := Int64.ofNat r, col := Int64.ofNat c } := by
  constructor
  · intro hcell
    obtain ⟨-, -, hcells⟩ := jacobianPattern_ok_iff.1 hp
    rw [Pattern.hasCell_ofCells hcells hnnz] at hcell
    obtain ⟨r, c, q, k, x, hq, hneeds, hk, rfl⟩ := h.mem_jacobianCells.1 hcell
    obtain ⟨n, hn, rfl⟩ := item?_results.1 hq
    obtain ⟨hnode, hx⟩ := h.getElem?_nodes_of_numbered hk
    have hmem := mem_nonzerosOf hn
    have hposition := getElem?_position_of_graph hG (hout n hmem) (h.outputs n hmem)
    exact ⟨r, c, n, x, hn, hx, (h.needs_iff_reaches hG hposition hnode).1 hneeds, rfl⟩
  · rintro ⟨r, c, n, x, hn, hx, hreach, rfl⟩
    exact h.hasCell_of_reaches hG hp hnnz hn (hout n (mem_nonzerosOf hn)) hx hreach

/-! ## The pattern -/

theorem nonzero?_of_getElem? {matrices : List (SparseMatrix K)} {i k : Nat} {m : SparseMatrix K}
    (hm : matrices[i]? = some m) : nonzero? matrices i k = m.nonzeros[k]? := by
  rw [nonzero?, item?, List.getElem?_map, hm]
  rfl

theorem getD_map_nnz {matrices : List (SparseMatrix K)} {i : Nat} {m : SparseMatrix K}
    (hm : matrices[i]? = some m) : (matrices.map (·.nnz)).getD i 0 = m.nnz := by
  rw [List.getD_eq_getElem?_getD, List.getElem?_map, hm]
  rfl

theorem Storable.inRange_of_getElem? {matrices : List (SparseMatrix K)} (h : Storable matrices)
    {i : Nat} {m : SparseMatrix K} (hm : matrices[i]? = some m) :
    (0 ≤ Int64.ofNat i ∧ Int64.ofNat i < Int64.ofNat matrices.length) ∧
      (Int64.ofNat i).toNatClampNeg = i ∧ m.nnz < 2 ^ 63 := by
  have hi := (List.getElem?_eq_some_iff.1 hm).1
  have hlength := h.length_lt
  have hnnz := h.nnz_lt m (List.mem_of_getElem? hm)
  have hcapacity := Int64.toNatClampNeg_lt Pattern.capacity
  exact ⟨⟨Int64.zero_le_ofNat_of_lt (by omega), (Int64.ofNat_lt_iff_lt (by omega) hlength).2 hi⟩,
    Int64.toNatClampNeg_ofNat_of_lt (by omega), by omega⟩

/-- Of the nonzeros of an input and an output there is a pattern. It has their numbers as its size,
and is well formed, with its cells where the output reaches the input. -/
theorem Layout.exists_pattern (h : t.Layout openEnded) (hG : ∀ n ∈ t.nodes, n ∈ G)
    (hout : ∀ n ∈ nonzerosOf t.outputs, n ∈ G) (hinputs : Storable t.inputs)
    (houtputs : Storable t.outputs) {i j : Nat} {m m' : SparseMatrix K}
    (hm : t.inputs[i]? = some m) (hm' : t.outputs[j]? = some m') :
    ∃ p, t.jacobianPattern (Int64.ofNat i) (Int64.ofNat j) = .ok p ∧
      p.nrow.toInt = m'.nnz ∧ p.ncol.toInt = m.nnz ∧
      (p.nnz < 2 ^ 63 → p.WellFormed ∧ ∀ cell, p.HasCell cell ↔
        ∃ r c n x, m'.nonzeros[r]? = some n ∧ m.nonzeros[c]? = some x ∧ n.Reaches x ∧
          cell = { row := Int64.ofNat r, col := Int64.ofNat c }) := by
  obtain ⟨hi, hi', hlt⟩ := hinputs.inRange_of_getElem? hm
  obtain ⟨hj, hj', hlt'⟩ := houtputs.inRange_of_getElem? hm'
  obtain ⟨p, hp⟩ := h.exists_jacobianPattern hi hj fun m hm =>
    (List.mem_append.1 hm).elim (hinputs.nnz_lt m) (houtputs.nnz_lt m)
  obtain ⟨-, -, hcells⟩ := jacobianPattern_ok_iff.1 hp
  rw [hi', hj', getD_map_nnz hm, getD_map_nnz hm'] at hcells
  obtain ⟨-, -, hsize⟩ := Pattern.ofCells_ok_iff.1 hcells
  refine ⟨p, hp, ?_, ?_, fun hnnz => ⟨?_, fun cell => ?_⟩⟩
  · rw [hsize]
    exact Int64.toInt_ofNat_of_lt hlt'
  · rw [hsize]
    exact Int64.toInt_ofNat_of_lt hlt
  · exact Pattern.wellFormed_of_nnz_lt hcells (Int64.zero_le_ofNat_of_lt hlt')
      (Int64.zero_le_ofNat_of_lt hlt) hnnz
  · rw [h.hasCell_iff_reaches hG hout hp hnnz, hi', hj']
    simp only [nonzero?_of_getElem? hm, nonzero?_of_getElem? hm']

/-- The pattern of a Jacobian is exact. For every input and output of a tape there is one, with a
row for each nonzero of the output and a column for each nonzero of the input, however many there
are. If its nonzeros can be counted, it is well formed and has its cells where the nonzero of the
row reaches that of the column, and nowhere else. A number that is not that of an input or an output
is reported. -/
theorem jacobianPattern_exact [Numeral K] (G : Graph K) {openEnded : Bool} {name : String}
    {inputs outputs : List (SparseMatrix K)} {t : Tape K}
    (h : layOut openEnded name inputs outputs = .ok t) (hin : ∀ n ∈ nonzerosOf inputs, n ∈ G)
    (hout : ∀ n ∈ nonzerosOf outputs, n ∈ G) (hinputs : Storable inputs)
    (houtputs : Storable outputs) :
    (∀ i j m m', inputs[i]? = some m → outputs[j]? = some m' →
      ∃ p, t.jacobianPattern (Int64.ofNat i) (Int64.ofNat j) = .ok p ∧
        p.nrow.toInt = m'.nnz ∧ p.ncol.toInt = m.nnz ∧
        (p.nnz < 2 ^ 63 → p.WellFormed ∧ ∀ cell, p.HasCell cell ↔
          ∃ r c n x, m'.nonzeros[r]? = some n ∧ m.nonzeros[c]? = some x ∧ n.Reaches x ∧
            cell = { row := Int64.ofNat r, col := Int64.ofNat c })) ∧
    ∀ input output : Int64,
      (¬InRange input inputs.length → t.jacobianPattern input output =
        .issue (.sideRange name .input input inputs.length)) ∧
      (InRange input inputs.length → ¬InRange output outputs.length →
        t.jacobianPattern input output =
          .issue (.sideRange name .output output outputs.length)) := by
  have hlay := layout_of_layOut h
  obtain ⟨rfl, rfl, rfl, -⟩ := layOut_ok h
  exact ⟨fun i j m m' => hlay.exists_pattern (hlay.mem_graph hin hout) hout hinputs houtputs,
    fun input output => jacobianPattern_of_not_inRange hinputs.length_lt houtputs.length_lt⟩

/-! ## A long column

One more input nonzero than a mask has seeds : the last one falls into a chunk of its own. -/

namespace LongColumn

def x (i : Nat) : Node Float := .symbol i "x"
def product : Node Float := .binary 65 .mul (x 0) (x 64)

def column (key : Nat) (nodes : List (Node Float)) : SparseMatrix Float where
  sp := ⟨key, Int64.ofNat nodes.length, 1, [0, Int64.ofNat nodes.length],
    (List.range nodes.length).map Int64.ofNat⟩
  nonzeros := nodes

def tape : Tape Float where
  name := "long_column"
  inputs := [column 66 ((List.range 65).map x)]
  outputs := [column 67 [product, x 63]]
  toOrder := .ofNodes ((List.range 65).map x ++ [product]) (by decide)

/-- The product depends on the first and the last input, the other output on the one before it. -/
def pattern : Pattern where
  nrow := 2
  ncol := 65
  offsets := 0 :: List.replicate 63 1 ++ [2, 3]
  rows := [0, 1, 0]

theorem mem_nodes {i : Nat} (hi : i < 65) : x i ∈ tape.nodes :=
  List.mem_append_left _ (List.mem_map.2 ⟨i, List.mem_range.2 hi, rfl⟩)

theorem operands_mem : ∀ n ∈ tape.nodes, ∀ a ∈ n.operands, a ∈ tape.nodes := by
  intro n hn a ha
  rcases List.mem_append.1 hn with hn | hn
  · obtain ⟨i, -, rfl⟩ := List.mem_map.1 hn
    cases ha
  · obtain rfl := List.mem_singleton.1 hn
    rcases List.mem_pair.1 ha with rfl | rfl
    · exact mem_nodes (by decide)
    · exact mem_nodes (by decide)

def graph : Graph Float :=
  .ofList tape.nodes operands_mem (by decide)

theorem inputs_mem : ∀ n ∈ nonzerosOf tape.inputs, n ∈ graph := by
  intro n hn
  rw [nonzerosOf, tape, List.flatMap_singleton] at hn
  obtain ⟨i, hi, rfl⟩ := List.mem_map.1 hn
  exact mem_nodes (List.mem_range.1 hi)

theorem outputs_mem : ∀ n ∈ nonzerosOf tape.outputs, n ∈ graph := by
  intro n hn
  rw [nonzerosOf, tape, List.flatMap_singleton] at hn
  rcases List.mem_pair.1 hn with rfl | rfl
  · exact List.mem_append_right _ List.mem_cons_self
  · exact mem_nodes (by decide)

theorem storable_column (key : Nat) {nodes : List (Node Float)}
    (h : nodes.length < Pattern.capacity.toNatClampNeg) : Storable [column key nodes] where
  length_lt := Nat.one_lt_two_pow (by decide)
  nnz_lt m hm := by rwa [List.mem_singleton.1 hm]

theorem freeze_eq : freeze "long_column" tape.inputs tape.outputs = .ok tape := by
  rfl

theorem jacobianPattern_eq : tape.jacobianPattern 0 0 = .ok pattern := by
  cbv

end LongColumn

/-- The product reaches the last input, which has the first seed of the second chunk; the output
that is the input with the last seed of the first chunk does not. -/
theorem jacobianPattern_exact_longColumn :
    freeze "long_column" LongColumn.tape.inputs LongColumn.tape.outputs = .ok LongColumn.tape ∧
      (∀ n ∈ nonzerosOf LongColumn.tape.inputs, n ∈ LongColumn.graph) ∧
      (∀ n ∈ nonzerosOf LongColumn.tape.outputs, n ∈ LongColumn.graph) ∧
      Storable LongColumn.tape.inputs ∧ Storable LongColumn.tape.outputs ∧
      LongColumn.tape.jacobianPattern 0 0 = .ok LongColumn.pattern ∧
      LongColumn.pattern.nnz < 2 ^ 63 ∧ LongColumn.pattern.WellFormed ∧
      LongColumn.product.Reaches (LongColumn.x 64) ∧ LongColumn.pattern.HasCell ⟨0, 64⟩ ∧
      ¬LongColumn.pattern.HasCell ⟨1, 64⟩ ∧ ¬(LongColumn.x 63).Reaches (LongColumn.x 64) ∧
      LongColumn.tape.jacobianPattern 1 0 = .issue (.sideRange "long_column" .input 1 1) := by
  have hinputs : Storable LongColumn.tape.inputs := LongColumn.storable_column 66 (by decide)
  have houtputs : Storable LongColumn.tape.outputs := LongColumn.storable_column 67 (by decide)
  obtain ⟨hpattern, hrange⟩ := jacobianPattern_exact LongColumn.graph LongColumn.freeze_eq
    LongColumn.inputs_mem LongColumn.outputs_mem hinputs houtputs
  obtain ⟨p, hp, -, -, hexact⟩ := hpattern 0 0 _ _ rfl rfl
  obtain rfl := Except.ok.inj (LongColumn.jacobianPattern_eq.symm.trans hp)
  obtain ⟨hwf, hcells⟩ := hexact (by decide)
  have hreach : LongColumn.product.Reaches (LongColumn.x 64) :=
    .head (List.mem_cons_of_mem _ List.mem_cons_self) (.refl _)
  have hcell := (hcells ⟨0, 64⟩).2 ⟨0, 64, _, _, rfl, rfl, hreach, rfl⟩
  have hnone : ¬LongColumn.pattern.HasCell ⟨1, 64⟩ := by decide
  exact ⟨LongColumn.freeze_eq, LongColumn.inputs_mem, LongColumn.outputs_mem, hinputs, houtputs,
    LongColumn.jacobianPattern_eq, by decide, hwf, hreach, hcell, hnone,
    fun hreach' => hnone ((hcells ⟨1, 64⟩).2 ⟨1, 64, _, _, rfl, rfl, hreach', rfl⟩),
    (hrange 1 0).1 (by decide)⟩

end Tangent.Tape
