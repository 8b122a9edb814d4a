import Tangent.SparseMatrix

/-!
# Tapes

A tape is an expression graph that is laid out for evaluation: its nodes stand in one list, every
node after its operands. The nonzeros of the inputs come first, in order; the rest follows in the
order in which a walk from the outputs, operands first and from left to right, leaves the nodes.
An index beside the list gives the position of a node by its number. It grows with the list, and
stays its inverse (`Order`).

`Tape.freeze` lays a graph out. The inputs must be distinct symbols, and the outputs must not
depend on any other symbol; `Tape.freezeOpen` allows them to.
-/

namespace Tangent

/-- Nodes in the order in which they are evaluated, and the position of each by its number. -/
structure Order (K : Type) where
  nodes : List (Node K)
  index : List (Nat × Nat)
  inverse : ∀ id i, index.lookup id = some i ↔ (nodes.map Node.id)[i]? = some id

namespace Order

variable {K : Type}

def empty : Order K where
  nodes := []
  index := []
  inverse := by simp

/-- The node is in the list. -/
def met (o : Order K) (id : Nat) : Bool :=
  (o.index.lookup id).isSome

theorem inverse_snoc {ids : List Nat} {index : List (Nat × Nat)} {id : Nat}
    (h : ∀ a i, index.lookup a = some i ↔ ids[i]? = some a) (hnew : index.lookup id = none)
    (a i : Nat) : ((id, ids.length) :: index).lookup a = some i ↔ (ids ++ [id])[i]? = some a := by
  by_cases ha : a = id
  · subst ha
    rw [List.lookup_cons_self, Option.some.injEq]
    refine ⟨fun hi => hi ▸ List.getElem?_concat_length, fun hi => ?_⟩
    rcases Nat.lt_or_ge i ids.length with hlt | hge
    · rw [List.getElem?_append_left hlt, ← h, hnew] at hi
      cases hi
    · rw [List.getElem?_append_right hge] at hi
      have := (List.getElem?_eq_some_iff.1 hi).1
      rw [List.length_singleton] at this
      omega
  · rw [List.lookup_cons, beq_false_of_ne ha, h]
    refine ⟨fun hi => ?_, fun hi => ?_⟩
    · rw [List.getElem?_append_left (List.getElem?_eq_some_iff.1 hi).1, hi]
    · rcases Nat.lt_or_ge i ids.length with hlt | hge
      · rwa [List.getElem?_append_left hlt] at hi
      · rw [List.getElem?_append_right hge] at hi
        exact absurd (List.mem_singleton.1 (List.mem_of_getElem? hi)) ha

/-- Append a node that is not in the list. -/
def push (o : Order K) (n : Node K) (h : ¬o.met n.id) : Order K where
  nodes := o.nodes ++ [n]
  index := (n.id, o.nodes.length) :: o.index
  inverse a i := by
    have hnew : o.index.lookup n.id = none := Option.not_isSome_iff_eq_none.1 h
    have hsnoc := inverse_snoc o.inverse hnew a i
    rwa [List.length_map, ← List.map_singleton, ← List.map_append] at hsnoc

end Order

structure Tape (K : Type) extends Order K where
  name : String
  inputs : List (SparseMatrix K)
  outputs : List (SparseMatrix K)

/-- What is done at one position of a tape. Operands are given by their positions. -/
inductive Step (K : Type) where
  | symbol (name : String)
  | const (value : K)
  | unary (op : Unary) (x : Nat)
  | binary (op : Binary) (x y : Nat)

/-- The positions that a step reads. -/
def Step.operands {K : Type} : Step K → List Nat
  | symbol _ | const _ => []
  | unary _ x => [x]
  | binary _ x y => [x, y]

namespace Tape

variable {K : Type}

/-! ## Laying out a graph -/

/-- The nonzeros of matrices, each with the number of the matrix and its own in the matrix. -/
def numbered (matrices : List (SparseMatrix K)) : List (Nat × Nat × Node K) :=
  matrices.zipIdx.flatMap fun (m, i) => m.nonzeros.zipIdx.map fun (n, k) => (i, k, n)

/-- Append one nonzero of an input. -/
def enter [Numeral K] (name : String) (o : Order K) : Nat × Nat × Node K → Result (Order K)
  | (i, k, n) =>
    if !n.isSymbol then .issue (.notSymbol name k i n.text)
    else if h : o.met n.id then .issue (.repeatedSymbol name n.text)
    else .ok (o.push n h)

/-- A node that the walk has come to, with the operands that it has not looked at yet. -/
structure Frame (K : Type) where
  node : Node K
  pending : List (Node K)

namespace Frame

/-- The frame of a node that the walk comes to. -/
def of (n : Node K) : Frame K :=
  { node := n, pending := n.operands }

/-- A bound for the number of steps until the walk leaves the node. -/
def weight (f : Frame K) : Nat :=
  (f.pending.map fun x => 2 * x.size).foldr (· + ·) 0 + 1

theorem weight_of_lt (n : Node K) : (of n).weight < 2 * n.size := by
  cases n <;> simp only [weight, of, Node.operands, Node.size, List.map_cons, List.map_nil,
    List.foldr_cons, List.foldr_nil] <;> omega

end Frame

/-- Append a node whose operands were all looked at, unless it is in the list. Without `openEnded`,
a symbol that is not in the list is an inconsistency. -/
def leave (name : String) (openEnded : Bool) (o : Order K) (n : Node K) : Result (Order K) :=
  if h : o.met n.id then .ok o
  else match openEnded, n.name? with
    | false, some s => .inconsistent (.freeSymbol name s)
    | _, _ => .ok (o.push n h)

/-- Walk on from a stack of frames, the last one first: look at the next operand of its node, and
leave the node once there is none. An operand that is not in the list gets a frame of its own. -/
@[semireducible]
def walk (name : String) (openEnded : Bool) : List (Frame K) → Order K → Result (Order K)
  | [], o => .ok o
  | ⟨n, x :: pending⟩ :: stack, o =>
    if o.met x.id then walk name openEnded (⟨n, pending⟩ :: stack) o
    else walk name openEnded (.of x :: ⟨n, pending⟩ :: stack) o
  | ⟨n, []⟩ :: stack, o => do
    walk name openEnded stack (← leave name openEnded o n)
termination_by stack => (stack.map Frame.weight).foldr (· + ·) 0
decreasing_by
  · have := x.size_pos
    simp only [Frame.weight, List.map_cons, List.foldr_cons]
    omega
  · have := Frame.weight_of_lt x
    simp only [Frame.weight, List.map_cons, List.foldr_cons] at this ⊢
    omega
  · simp [Frame.weight]

/-- Append the nodes that a node needs and that are not in the list yet, then the node. -/
def visit (name : String) (openEnded : Bool) (o : Order K) (root : Node K) : Result (Order K) :=
  if o.met root.id then .ok o else walk name openEnded [.of root] o

/-- Lay out the graph from the inputs to the outputs. -/
def layOut [Numeral K] (openEnded : Bool) (name : String) (inputs outputs : List (SparseMatrix K)) :
    Result (Tape K) := do
  let o ← (numbered inputs).foldlM (enter name) Order.empty
  let o ← (outputs.flatMap (·.nonzeros)).foldlM (visit name openEnded) o
  return { o with name, inputs, outputs }

/-- Lay out a graph whose outputs depend on the inputs alone. -/
def freeze [Numeral K] (name : String) (inputs outputs : List (SparseMatrix K)) :
    Result (Tape K) :=
  layOut false name inputs outputs

/-- Lay out a graph whose outputs may depend on further symbols. -/
def freezeOpen [Numeral K] (name : String) (inputs outputs : List (SparseMatrix K)) :
    Result (Tape K) :=
  layOut true name inputs outputs

/-! ## Positions -/

/-- The position of a node, if it is on the tape. -/
def index? (t : Tape K) (n : Node K) : Option Nat :=
  t.index.lookup n.id

/-- The position of a node. For a node that is not on the tape this is zero. -/
def position (t : Tape K) (n : Node K) : Nat :=
  (t.index? n).getD 0

/-- What is done at a node. -/
def stepOf (t : Tape K) : Node K → Step K
  | .const _ v => .const v
  | .symbol _ name => .symbol name
  | .unary _ u x => .unary u (t.position x)
  | .binary _ b x y => .binary b (t.position x) (t.position y)

/-- What is done at each position. -/
def steps (t : Tape K) : List (Step K) :=
  t.nodes.map t.stepOf

/-- The matrices of one side. -/
def sideOf (t : Tape K) : Side → List (SparseMatrix K)
  | .input => t.inputs
  | .output => t.outputs

/-- The number of input nonzeros. -/
def width (t : Tape K) : Nat :=
  (t.inputs.map (·.nnz)).foldr (· + ·) 0

/-- The positions of the output nonzeros. -/
def results (t : Tape K) : List (List Nat) :=
  t.outputs.map fun m => m.nonzeros.map t.position

/-! ## The shape of arguments -/

/-- Lists of values go with the nonzeros of one side. -/
def checkShape {V : Type} (t : Tape K) (side : Side) (args : List (List V)) : Result Unit := do
  let matrices := t.sideOf side
  if args.length ≠ matrices.length then
    .inconsistent (.argumentCount t.name side args.length matrices.length)
  let wrong := (args.zip matrices).zipIdx.find? fun ((arg, m), _) => arg.length ≠ m.nnz
  if let some ((arg, m), i) := wrong then
    .inconsistent (.argumentSize t.name side i arg.length m.nnz)

end Tape

end Tangent
