import Tangent.Node.Equality

/-!
# Building and simplifying nodes

A builder makes nodes, and simplifies what it is asked to make. What it is asked for is a `Form`:
a node that exists, a new constant, or an operation on existing nodes. One `step` folds constants
or applies one rule and gives another form; `settle` takes steps until none applies, and
only then is a node made, if one is needed at all. Every step leads to a form of smaller weight,
so that settling ends (`weight_step_lt`).

Rules that ask whether two expressions are the same follow their operands down to a fixed depth.
-/

namespace Tangent

/-- How nodes are built: `depth` is the number of levels of operands that are followed to see
whether two expressions are the same. -/
structure Builder where
  depth : Int64 := 1

/-- What a builder may be asked to make. -/
inductive Form (K : Type) where
  | node (n : Node K)
  | const (v : K)
  | unary (u : Unary) (x : Node K)
  | binary (b : Binary) (x y : Node K)

namespace Form

variable {K : Type}

/-- The size of the operands. A power weighs one more, because it becomes a power with a constant
exponent. -/
def weight : Form K → Nat
  | node _ | const _ => 0
  | unary _ x => x.size
  | binary .pow x y => x.size + y.size + 1
  | binary _ x y => x.size + y.size

theorem weight_unary_pos (u : Unary) (x : Node K) : 0 < (unary u x).weight :=
  x.size_pos

theorem weight_binary_pos (op : Binary) (x y : Node K) : 0 < (binary op x y).weight := by
  have := x.size_pos
  cases op <;> simp only [weight] <;> omega

end Form

/-! ## Shapes that the rules look for -/

namespace Node

variable {K : Type}

/-- `a` in `-a`. -/
def negated? : Node K → Option (Node K)
  | unary _ .neg a => some a
  | _ => none

theorem size_lt_of_negated? {n a : Node K} (h : n.negated? = some a) : a.size < n.size := by
  unfold negated? at h
  split at h
  · simp only [Option.some.injEq] at h
    subst h
    simp [size]
  · simp at h

/-- `a` and `b` in `a - b`. -/
def difference? : Node K → Option (Node K × Node K)
  | binary _ .sub a b => some (a, b)
  | _ => none

/-- `a` in the square of `u(a)`. -/
def squareOf? (u : Unary) : Node K → Option (Node K)
  | unary _ .sq (unary _ v a) => if v = u then some a else none
  | _ => none

/-- `a` in a half of `a`, written as a product with one half or as a quotient by two. -/
def halved? [Scalar K] : Node K → Option (Node K)
  | binary _ .mul a b =>
    if a.isLiteral .half then some b else if b.isLiteral .half then some a else none
  | binary _ .div a b => if b.isLiteral .two then some a else none
  | _ => none

end Node

namespace Builder

variable {K : Type} [Scalar K]

/-- The two nodes compute the same expression, as far as this builder looks. -/
def equal (b : Builder) (x y : Node K) : Bool :=
  x.equalUpTo b.depth.toNatClampNeg y

/-! ## The rules -/

/-- `0 + y`, `x + 0`, `x + -a`, `-a + y`, `(a - y) + y`, `x + (a - x)`, two halves, and the squares
of a sine and a cosine. -/
def add? (b : Builder) (x y : Node K) : Option (Form K) :=
  if x.isZero then some (.node y)
  else if y.isZero then some (.node x)
  else if let some a := y.negated? then some (.binary .sub x a)
  else if let some a := x.negated? then some (.binary .sub y a)
  else
    x.difference?.bind (fun (a, c) => if b.equal c y then some (.node a) else none)
    <|> y.difference?.bind (fun (a, c) => if b.equal c x then some (.node a) else none)
    <|> x.halved?.bind (fun a => y.halved?.bind fun c =>
      if b.equal a c then some (.node a) else none)
    <|> (x.squareOf? .sin).bind (fun s => (y.squareOf? .cos).bind fun c =>
      if b.equal s c then some (.const (Scalar.literal .one)) else none)
    <|> (x.squareOf? .cos).bind (fun c => (y.squareOf? .sin).bind fun s =>
      if b.equal s c then some (.const (Scalar.literal .one)) else none)

/-- `x - 0`, `0 - y`, `x - x` and `x - -a`. -/
def sub? (b : Builder) (x y : Node K) : Option (Form K) :=
  if y.isZero then some (.node x)
  else if x.isZero then some (.unary .neg y)
  else if b.equal x y then some (.const (Scalar.literal .zero))
  else y.negated?.map (.binary .add x)

/-- Products with zero, one and minus one, and `x * x`. -/
def mul? (b : Builder) (x y : Node K) : Option (Form K) :=
  if x.isZero || y.isZero then some (.const (Scalar.literal .zero))
  else if x.isLiteral .one then some (.node y)
  else if y.isLiteral .one then some (.node x)
  else if x.isLiteral .negOne then some (.unary .neg y)
  else if y.isLiteral .negOne then some (.unary .neg x)
  else if b.equal x y then some (.unary .sq x)
  else none

/-- The rule that applies to a binary operation, if there is one. -/
def binaryRule? (b : Builder) (op : Binary) (x y : Node K) : Option (Form K) :=
  match op with
  | .add => b.add? x y
  | .sub => b.sub? x y
  | .mul => b.mul? x y
  | .div | .constpow => if y.isLiteral .one then some (.node x) else none
  | .pow => if y.isConst then some (.binary .constpow x y) else none
  | .fmin | .fmax => if b.equal x y then some (.node x) else none
  | _ => none

/-- The rule that applies to a unary operation, if there is one. -/
def unaryRule? (op : Unary) (x : Node K) : Option (Form K) :=
  match op with
  | .neg => x.negated?.map .node
  | _ => none

/-- The value of a form whose operands are constants. What is printed is never folded. -/
def fold? : Form K → Option K
  | .unary u x => x.value?.map (Scalar.unary u)
  | .binary .printme _ _ => none
  | .binary op x y => x.value?.bind fun v => y.value?.map (Scalar.binary op v)
  | _ => none

/-- One simplification: constants are folded first, then the rules are tried. -/
def step (b : Builder) (f : Form K) : Option (Form K) :=
  match fold? f with
  | some v => some (.const v)
  | none =>
    match f with
    | .unary u x => unaryRule? u x
    | .binary op x y => b.binaryRule? op x y
    | _ => none

/-! ## Settling -/

theorem weight_add?_lt (b : Builder) {x y : Node K} {g : Form K} (h : b.add? x y = some g) :
    g.weight < x.size + y.size := by
  have hx := x.size_pos
  have hy := y.size_pos
  unfold add? at h
  split at h
  · cases h; simp only [Form.weight]; omega
  split at h
  · cases h; simp only [Form.weight]; omega
  split at h
  · rename_i a ha
    cases h
    have := Node.size_lt_of_negated? ha
    simp only [Form.weight]; omega
  split at h
  · rename_i a ha
    cases h
    have := Node.size_lt_of_negated? ha
    simp only [Form.weight]; omega
  · have : g.weight = 0 := by
      simp only [Option.orElse_eq_orElse, Option.orElse_eq_or, Option.or_eq_some_iff,
        Option.bind_eq_some_iff] at h
      grind [Form.weight]
    omega

theorem weight_sub?_lt (b : Builder) {x y : Node K} {g : Form K} (h : b.sub? x y = some g) :
    g.weight < x.size + y.size := by
  have hx := x.size_pos
  have hy := y.size_pos
  unfold sub? at h
  split at h
  · cases h; simp only [Form.weight]; omega
  split at h
  · cases h; simp only [Form.weight]; omega
  split at h
  · cases h; simp only [Form.weight]; omega
  · obtain ⟨a, ha, rfl⟩ := Option.map_eq_some_iff.1 h
    have := Node.size_lt_of_negated? ha
    simp only [Form.weight]; omega

theorem weight_mul?_lt (b : Builder) {x y : Node K} {g : Form K} (h : b.mul? x y = some g) :
    g.weight < x.size + y.size := by
  have hx := x.size_pos
  have hy := y.size_pos
  unfold mul? at h
  repeat' split at h
  all_goals first | cases h; simp only [Form.weight]; omega | cases h

theorem weight_binaryRule?_lt (b : Builder) {op : Binary} {x y : Node K} {g : Form K}
    (h : b.binaryRule? op x y = some g) : g.weight < (Form.binary op x y).weight := by
  have hx := x.size_pos
  have hy := y.size_pos
  unfold binaryRule? at h
  split at h
  · exact weight_add?_lt b h
  · exact weight_sub?_lt b h
  · exact weight_mul?_lt b h
  all_goals grind [Form.weight]

/-- Every simplification makes the form lighter. -/
theorem weight_step_lt (b : Builder) {f g : Form K} (h : b.step f = some g) :
    g.weight < f.weight := by
  unfold step at h
  split at h
  · rename_i v hv
    cases h
    cases f with
    | node n => simp [fold?] at hv
    | const v => simp [fold?] at hv
    | unary u x => exact Form.weight_unary_pos u x
    | binary op x y => exact Form.weight_binary_pos op x y
  · split at h
    · rename_i u x
      unfold unaryRule? at h
      split at h
      · obtain ⟨a, _, rfl⟩ := Option.map_eq_some_iff.1 h
        exact Form.weight_unary_pos _ _
      · cases h
    · exact weight_binaryRule?_lt b h
    · cases h

/-- Simplify until nothing applies. -/
def settle (b : Builder) (f : Form K) : Form K :=
  match _h : b.step f with
  | some g => b.settle g
  | none => f
termination_by f.weight
decreasing_by exact weight_step_lt b _h

/-! ## Making nodes -/

/-- The node that a form stands for. At most one node is made. -/
def make (b : Builder) (f : Form K) : Build (Node K) :=
  match b.settle f with
  | .node n => pure n
  | .const v => Node.newConst v
  | .unary u x => return .unary (← Build.fresh) u x
  | .binary op x y => return .binary (← Build.fresh) op x y

def unary (b : Builder) (u : Unary) (x : Node K) : Build (Node K) :=
  b.make (.unary u x)

def binary (b : Builder) (op : Binary) (x y : Node K) : Build (Node K) :=
  b.make (.binary op x y)

/-- Nodes as an algebra, in which every operation is simplified. -/
def algebra (b : Builder) (K : Type) [Scalar K] : Algebra Build (Node K) where
  literal l := Node.newConst (Scalar.literal l)
  unary := b.unary
  binary := b.binary

end Builder

end Tangent
