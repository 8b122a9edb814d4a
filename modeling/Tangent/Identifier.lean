/-!
# Identifiers

An identifier is a letter or an underscore followed by letters, digits and underscores, all of
them ASCII. The name of a type is one or more identifiers, separated by single blanks.
-/

namespace Tangent

def isIdentifierStart (c : Char) : Bool :=
  c.isAlpha || c == '_'

def isIdentifierRest (c : Char) : Bool :=
  c.isAlphanum || c == '_'

def isIdentifier (s : String) : Bool :=
  match s.toList with
  | [] => false
  | c :: cs => isIdentifierStart c && cs.all isIdentifierRest

def isTypeName (s : String) : Bool :=
  (s.splitOn " ").all isIdentifier

end Tangent
