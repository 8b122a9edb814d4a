import Tangent.Node.Text

/-!
# Outlines

The outline of some expressions tells what is shared. Nodes are numbered from zero in the order in
which they are first met, each from the top down and its operands from left to right. A node is
laid out where it is first met; where it occurs again, only its number stands. Every entry of an
outline has a label, so that the outlines of some expressions make a tree of labels
(`Outline.tree`), which `LabelTree.picture` draws.
-/

namespace Tangent

inductive Outline (K : Type) where
  /-- A node that was met before. -/
  | again (number : Nat)
  | const (number : Nat) (value : K)
  | symbol (number : Nat) (name : String)
  | unary (number : Nat) (op : Unary) (x : Outline K)
  | binary (number : Nat) (op : Binary) (x y : Outline K)

namespace Node

variable {K : Type}

/-- The outline of a node, given the nodes met so far in the order of their numbers. -/
def outline : Node K → StateM (List Nat) (Outline K)
  | const id v => do
    let seen ← get
    if id ∈ seen then return .again (seen.idxOf id)
    set (seen ++ [id])
    return .const seen.length v
  | symbol id name => do
    let seen ← get
    if id ∈ seen then return .again (seen.idxOf id)
    set (seen ++ [id])
    return .symbol seen.length name
  | unary id u x => do
    let seen ← get
    if id ∈ seen then return .again (seen.idxOf id)
    set (seen ++ [id])
    return .unary seen.length u (← x.outline)
  | binary id b x y => do
    let seen ← get
    if id ∈ seen then return .again (seen.idxOf id)
    set (seen ++ [id])
    let x' ← x.outline
    let y' ← y.outline
    return .binary seen.length b x' y'

/-- The outlines of several nodes, numbered together. -/
def outlines (nodes : List (Node K)) : List (Outline K) :=
  ((nodes.mapM outline).run []).1

end Node

/-! ## Trees of labels -/

inductive LabelTree where
  | node (label : String) (branches : List LabelTree)

namespace LabelTree

/-- The columns under an entry: a line leads on to its next sibling, if it has one. -/
def margin (last : Bool) : String :=
  if last then "    " else "│   "

/-- An entry at the given margin. The further lines of a label stand under its first. -/
def renderLabel (indent : String) (last : Bool) (label : String) : String :=
  indent ++ (if last then "└── " else "├── ")
    ++ String.intercalate ("\n" ++ indent ++ margin last) (label.splitOn "\n") ++ "\n"

mutual

/-- An entry and what is below it. -/
def render (indent : String) (last : Bool) : LabelTree → String
  | node label branches =>
    renderLabel indent last label ++ renderAll (indent ++ margin last) branches

/-- Several entries at one margin. -/
def renderAll (indent : String) : List LabelTree → String
  | [] => ""
  | [t] => t.render indent true
  | t :: t' :: ts => t.render indent false ++ renderAll indent (t' :: ts)

end

/-- The label of the root on a line of its own, and what is below it. -/
def picture : LabelTree → String
  | node label branches => label ++ "\n" ++ renderAll "" branches

end LabelTree

namespace Outline

variable {K : Type} [Numeral K]

/-- The number of a node that is laid out, and what it is. -/
def headline (number : Nat) (op : Op) : String :=
  "#" ++ toString number ++ " " ++ op.name

/-- The text of one entry. -/
def label : Outline K → String
  | again number => "#" ++ toString number
  | const number v => headline number .const ++ " " ++ Numeral.numeral v
  | symbol number name => headline number .symbol ++ " " ++ name
  | unary number u _ => headline number (.unary u)
  | binary number b _ _ => headline number (.binary b)

/-- The labels of an outline. -/
def labels : Outline K → LabelTree
  | unary number u x => .node (label (unary number u x)) [x.labels]
  | binary number b x y => .node (label (binary number b x y)) [x.labels, y.labels]
  | o => .node o.label []

/-- The labels of several outlines below their common root. -/
def tree (outlines : List (Outline K)) : LabelTree :=
  .node "sx" (outlines.map labels)

def picture (outlines : List (Outline K)) : String :=
  (tree outlines).picture

end Outline

end Tangent
