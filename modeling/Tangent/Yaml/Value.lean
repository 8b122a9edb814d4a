/-!
# YAML documents

A document is a tree of scalars, sequences and mappings. A scalar keeps its text, and whether it
was quoted: a quoted scalar is a text, while a plain one may stand for something else. A tag says
what a scalar has to stand for. A node may also be the name of a node that stands earlier, or of one
that it is part of.
-/

namespace Tangent

inductive Yaml where
  | scalar (text : String) (quoted : Bool) (tag : Option String)
  | sequence (items : List Yaml)
  | mapping (entries : List (Yaml × Yaml))
  /-- The node of that name; none if this one stands inside it. -/
  | alias (name : String) (target : Option Yaml)

/-- What stands where nothing is written. -/
def Yaml.nothing : Yaml :=
  .scalar "" false none

/-- Collections are nested at most this deep. -/
def Yaml.maxDepth : Nat := 10000

end Tangent
