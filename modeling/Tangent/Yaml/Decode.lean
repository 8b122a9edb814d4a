import Tangent.Error.Basic
import Tangent.Yaml.Scalar

/-!
# Typed values of a document

Each function says what a node is as a value of some type: none if it stands for nothing, which
leaves a field as it was and drops an item from a list. A node that is not of the type is a flaw. The
rest of the document is still looked at, and at its end a flawed document has failed. A scalar that
is not what its tag says and a name for a node that contains it fail at once.

A mapping may take entries over from others, which stand as the value of the key `<<`. Its own
entries win over those, and earlier ones over later ones.
-/

namespace Tangent.Yaml

/-- Why decoding stops. -/
inductive Stop
  | failed
  /-- A collection was found among the keys that are compared with those of other mappings. -/
  | collectionKey
deriving DecidableEq

/-- The error of a document that was to hold something. -/
def Stop.error (what : String) : Stop → Error
  | failed => .undecodable what
  | collectionKey => .fault .collectionKey

/-- What is known while a document is decoded. -/
structure Progress where
  flawed : Bool := false
  /-- The nodes that were visited, the document included. -/
  visited : Nat := 1
  /-- Those of them that were visited by a name. -/
  byName : Nat := 0
  /-- The names that led to the current node. -/
  depth : Nat := 0

abbrev Decoding := ExceptT Stop (StateM Progress)

/-- What decoding comes to. -/
def Decoding.result {α : Type} (d : Decoding α) : Except Stop α :=
  match d.run.run {} with
  | (.ok a, p) => if p.flawed then .error .failed else .ok a
  | (.error stop, _) => .error stop

/-- Go on with a value, although the document is flawed. -/
def flawed {α : Type} (a : α) : Decoding α := do
  modify fun p => { p with flawed := true }
  return a

/-- How many of the visited nodes may be visited by name, as a fraction. Large documents may have
fewer. -/
def nameShare (visited : Nat) : Float :=
  if visited ≤ 400000 then 0.99
  else if 4000000 ≤ visited then 0.10
  else 0.99 - 0.89 * ((visited - 400000).toFloat / 3600000.0)

/-- Visit a node. It fails if too many of the nodes are visited by name. -/
def visit : Decoding Unit := do
  modify fun p => { p with
    visited := p.visited + 1
    byName := if p.depth = 0 then p.byName else p.byName + 1 }
  let p ← get
  if 100 < p.byName && 1000 < p.visited
      && nameShare p.visited < p.byName.toFloat / p.visited.toFloat then
    throw .failed

/-- Decode the node that a node is or names. -/
def decode {α : Type} (read : Yaml → Decoding α) : Yaml → Decoding α
  | .alias _ none => throw .failed
  | .alias _ (some y) => do
    visit
    modify fun p => { p with depth := p.depth + 1 }
    visit
    let a ← read y
    modify fun p => { p with depth := p.depth - 1 }
    return a
  | y => do
    visit
    read y

/-! ## Scalars -/

/-- What a scalar stands for; a quoted one is a text, unless it has a tag. A collection stands for
nothing of that kind. -/
def resolved? : Yaml → Decoding (Option Resolved)
  | .scalar text _ (some tag) =>
    match resolveAs? tag text with
    | some r => return some r
    | none => throw .failed
  | .scalar text true none => return some (.text text)
  | .scalar text false none => return some (resolve text)
  | _ => return none

/-- Decode a scalar, given what it stands for unless that is nothing. -/
def scalarBy {α : Type} (convert : Resolved → Option α) : Yaml → Decoding (Option α) :=
  decode fun y => do
    match ← y.resolved? with
    | some .null => return none
    | some r =>
      match convert r with
      | some a => return some a
      | none => flawed none
    | none => flawed none

/-- What is written of a scalar. -/
def written? : Yaml → Option String
  | .scalar text _ _ => some text
  | _ => none

/-- A text. Every scalar is one. -/
def text : Yaml → Decoding (Option String) :=
  decode fun y => do
    match ← y.resolved? with
    | some .null => return none
    | some (.text s) => return some s
    | some _ => return y.written?
    | none => flawed none

/-- A truth value. The short words of older documents are understood as well. -/
def bool : Yaml → Decoding (Option Bool) :=
  scalarBy fun
    | .bool b => some b
    | .text s =>
      if ["y", "Y", "yes", "Yes", "YES", "on", "On", "ON"].contains s then some true
      else if ["n", "N", "no", "No", "NO", "off", "Off", "OFF"].contains s then some false
      else none
    | _ => none

/-- A real number, cut off towards zero; one that is too small becomes the least integer. -/
def truncate? (v : Float) : Option Int64 :=
  if v ≤ 9223372036854775808.0 then
    if v < -9223372036854775808.0 || 9223372036854775808.0 ≤ v then some Int64.minValue
    else some v.toInt64
  else none

/-- A machine integer. -/
def int : Yaml → Decoding (Option Int64) :=
  scalarBy fun
    | .int n => if n < Int.pow 2 63 then some (Int64.ofInt n) else none
    | .real v => truncate? v
    | _ => none

/-- A double. -/
def real : Yaml → Decoding (Option Float) :=
  scalarBy fun
    | .int n => some (Float.ofInt n)
    | .real v => some v
    | _ => none

/-! ## Lists -/

/-- A collection is wanted, and something else is found, which may stand for nothing. -/
def unlessNull {α : Type} (y : Yaml) : Decoding (Option α) := do
  match ← y.resolved? with
  | some .null => return none
  | _ => flawed none

/-- A list, without the items that stand for nothing. -/
def list {α : Type} (item : Yaml → Decoding (Option α)) : Yaml → Decoding (Option (List α)) :=
  decode fun
    | .sequence items => return some (← items.mapM item).reduceOption
    | y => y.unlessNull

/-- A value that replaces another, unless it stands for nothing. -/
def replace {α : Type} (read : Yaml → Decoding (Option α)) (old : α) (y : Yaml) : Decoding α :=
  return (← read y).getD old

/-! ## Entries -/

/-- What keys are compared by: their kind, and their text or their name. -/
def identity : Yaml → Nat × String
  | .scalar text _ _ => (0, text)
  | .sequence _ => (1, "")
  | .mapping _ => (2, "")
  | .alias name _ => (3, name)

/-- No key stands twice. -/
def areDistinct (entries : List (Yaml × Yaml)) : Bool :=
  (entries.map fun (key, _) => key.identity).Nodup

/-- The key under which entries of other mappings are taken over. -/
def isMergeKey : Yaml → Bool
  | .scalar "<<" quoted tag => tag == some "!!merge" || (!quoted && tag.isNone)
  | _ => false

/-- Something is a mapping, or the name of one. -/
def isMapping : Yaml → Bool
  | .mapping _ | .alias _ (some (.mapping _)) | .alias _ none => true
  | _ => false

/-- The mappings that another one takes entries over from, given the value of the key for that. They
are decoded one after the other, so something else fails only when its turn comes. -/
def sources : Yaml → List Yaml
  | .sequence items => items
  | y => [y]

/-- What a node stands for whose type is not known. -/
inductive Free
  | null
  | text (s : String)
  | scalar
  | collection

/-- Decode a node of any type: none if it is flawed. The keys of a mapping are no collections. -/
def free : Nat → Yaml → Decoding (Option Free)
  | 0, _ => throw .failed
  | fuel + 1, y => y.decode fun
    | .sequence items => do
      for y in items do
        let _ ← free fuel y
      return some .collection
    | .mapping entries => do
      if !areDistinct entries then flawed none
      else
        for (key, value) in entries do
          if let some .collection := ← free fuel key then throw .failed
          let _ ← free fuel value
        return some .collection
    | y => do
      match ← y.resolved? with
      | some .null => return some .null
      | some (.text s) => return some (.text s)
      | _ => return some .scalar

/-- The texts among the keys of a mapping. There is no comparing with a collection. -/
def textKeys (entries : List (Yaml × Yaml)) : Decoding (List String) := do
  let keys ← entries.mapM fun (key, _) => do
    match ← free maxDepth key with
    | some .collection => throw .collectionKey
    | some (.text s) => return some s
    | _ => return none
  return keys.reduceOption

/-! ## Mappings -/

/-- How the entries of a mapping make a value of a type. -/
structure Shape (α : Type) where
  /-- Put the value of a name into what there is, given whether it is taken over. -/
  put : Bool → String → Yaml → α → Decoding α
  /-- A name may be put again. -/
  repeats : Bool

/-- The names that were put, and what they were put into. -/
structure Filled (α : Type) where
  names : List String
  value : α

/-- Put the entries of a mapping into a value, by their names. Keys that stand for nothing are left
out with their values. A mapping that is taken over leaves out the names that are there. -/
def putEntries {α : Type} (shape : Shape α) (takenOver : Bool) (entries : List (Yaml × Yaml))
    (start : Filled α) : Decoding (Filled α) :=
  (entries.filter fun (key, _) => !key.isMergeKey).foldlM (fun f (key, value) => do
    match ← key.text with
    | none => return f
    | some name =>
      if !f.names.contains name then
        return { names := name :: f.names, value := ← shape.put takenOver name value f.value }
      else if takenOver then return f
      else if shape.repeats then return { f with value := ← shape.put takenOver name value f.value }
      else flawed f) start

/-- Put the entries of a mapping that is taken over into a value, and those that it takes over
itself. -/
def takeOver {α : Type} (shape : Shape α) : Nat → Filled α → Yaml → Decoding (Filled α)
  | 0, _, _ => throw .failed
  | fuel + 1, start, y => do
    if !y.isMapping then throw .failed
    y.decode fun
      | .mapping entries => do
        if !areDistinct entries then flawed start
        else
          let f ← putEntries shape true entries start
          match entries.find? fun (key, _) => key.isMergeKey with
          | none => return f
          | some (_, y) => y.sources.foldlM (takeOver shape fuel) f
      | _ => return start

/-- A value that the entries of a mapping are put into, one after the other. -/
def fill {α : Type} (shape : Shape α) (start : α) : Yaml → Decoding (Option α) :=
  decode fun
    | .mapping entries => do
      if !areDistinct entries then flawed none
      else
        let f ← putEntries shape false entries { names := [], value := start }
        match entries.find? fun (key, _) => key.isMergeKey with
        | none => return some f.value
        | some (_, y) =>
          let names ← textKeys entries
          let f ← y.sources.foldlM (takeOver shape maxDepth) { f with names }
          return some f.value
    | y => y.unlessNull

/-- A record: each of its fields is put once. -/
def record {α : Type} (put : String → Yaml → α → Decoding α) (start : α) :
    Yaml → Decoding (Option α) :=
  fill { put := fun _ => put, repeats := false } start

/-- A table: values by their names. A value that stands for nothing is the empty one; if it is taken
over, it does not replace what is there. -/
def table {α : Type} (read : Yaml → Decoding (Option α)) (empty : α) :
    Yaml → Decoding (Option (List (String × α))) :=
  let put (takenOver : Bool) (name : String) (y : Yaml) (rows : List (String × α)) :
      Decoding (List (String × α)) := do
    let a? ← read y
    if !rows.any (·.1 = name) then return rows ++ [(name, a?.getD empty)]
    if a?.isNone && takenOver then return rows
    return rows.map fun row => if row.1 = name then (name, a?.getD empty) else row
  fill { put, repeats := true } []

end Tangent.Yaml
