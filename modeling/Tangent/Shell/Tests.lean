import Tangent.Shell.State

/-!
# Tests

A test is a row of words that holds or does not hold. Its words are operators or operands by where
they stand: an operator that has to be an operand is one.
-/

namespace Tangent.Shell

/-- A number in base 10 with a sign, with blanks around it. -/
def decimal? (text : String) : Option Int :=
  let cs := text.toList.dropWhile Char.isWhitespace
  let (negative, ds) := match cs with
    | '-' :: ds => (true, ds)
    | '+' :: ds => (false, ds)
    | ds => (false, ds)
  let digits := ds.takeWhile Char.isDigit
  let n := digits.foldl (fun n c => n * 10 + (c.toNat - '0'.toNat)) 0
  if digits.isEmpty || !(ds.dropWhile Char.isDigit).all Char.isWhitespace then none
  else if negative then
    if n ≤ Nat.pow 2 63 then some (-Int.ofNat n) else none
  else if n < Nat.pow 2 63 then some (Int.ofNat n) else none

/-- A number that has to be readable. -/
def demandNumber (text : String) : Run Int :=
  match decimal? text with
  | some n => return n
  | none => fault ("Illegal number: " ++ text)

/-- A number that may be a status or a count. -/
def demandCount (text : String) : Run Nat := do
  match decimal? text with
  | some n =>
    if 0 ≤ n && n < Int.pow 2 31 then return n.toNat else fault ("Illegal number: " ++ text)
  | none => fault ("Illegal number: " ++ text)

def unaryTests : List String :=
  ["-b", "-c", "-d", "-e", "-f", "-g", "-G", "-h", "-k", "-L", "-n", "-O", "-p", "-r", "-s", "-S", "-t",
    "-u", "-w", "-x", "-z"]

def binaryTests : List String :=
  ["=", "!=", "<", ">", "-eq", "-ne", "-ge", "-gt", "-le", "-lt", "-nt", "-ot", "-ef"]

/-- What a word is in a test. -/
inductive Role
  | operand | unary | binary | not | both | either | opening | closing | finish
deriving DecidableEq

def roleOf (word : String) : Role :=
  if unaryTests.contains word then .unary
  else if binaryTests.contains word then .binary
  else match word with
    | "!" => .not
    | "-a" => .both
    | "-o" => .either
    | "(" => .opening
    | ")" => .closing
    | _ => .operand

/-- What the first of some words is. -/
def firstRole : List String → Role
  | [] => .finish
  | word :: rest =>
    let operand : Bool := match rest with
      | [] => true
      | [_] => false
      | next :: _ => roleOf next = .binary
    match roleOf word with
    | .unary => if operand then .operand else .unary
    | .opening => if rest.isEmpty then .operand else .opening
    | role => role

/-- Reading a test: the words from the one that was looked at last. -/
abbrev Testing := StateT (List String) Run

/-- Go on to a later word, and say what it is. -/
def Testing.advance (n : Nat) : Testing Role := do
  modify (·.drop n)
  return firstRole (← get)

/-- Something about a file. -/
def fileTest (operator path : String) : Run Bool := do
  let s ← get
  let entry := s.disk.look (s.path path)
  if path.isEmpty then return false
  if s.path path = "/dev/null" then return ["-c", "-e", "-r", "-w", "-O", "-G"].contains operator
  return match operator, entry with
    | "-e", .ok _ | "-r", .ok _ | "-w", .ok _ | "-O", .ok _ | "-G", .ok _ => true
    | "-d", .ok .folder | "-x", .ok .folder => true
    | "-x", .ok (.file _) => s.mayRun path || (s.path path).startsWith "/bin/"
    | "-f", .ok (.file _) => true
    | "-s", .ok .folder => true
    | "-s", .ok (.file content) => !content.isEmpty
    | _, _ => false

/-- Compare two operands. -/
def compareTest (operator x y : String) : Run Bool := do
  let numbers (f : Int → Int → Bool) : Run Bool := do
    let x ← demandNumber x
    return f x (← demandNumber y)
  match operator with
  | "=" => return x = y
  | "!=" => return x ≠ y
  | "<" => return x < y
  | ">" => return y < x
  | "-eq" => numbers (· == ·)
  | "-ne" => numbers (· != ·)
  | "-ge" => numbers (· ≥ ·)
  | "-gt" => numbers (· > ·)
  | "-le" => numbers (· ≤ ·)
  | "-lt" => numbers (· < ·)
  | "-ef" => do
    let s ← get
    return match s.disk.locate (s.path x), s.disk.locate (s.path y) with
      | .ok p, .ok q => p = q && (s.disk.entry? p).isSome
      | _, _ => false
  | _ => return false

mutual

def Testing.primary : Nat → Role → Testing Bool
  | 0, _ => return false
  | fuel + 1, role => do
    let words ← get
    match role, words with
    | .finish, _ | _, [] => return false
    | .opening, _ =>
      let next ← advance 1
      if next = .closing then return false
      let r ← disjunction fuel next
      if (← advance 1) ≠ .closing then fault "closing paren expected"
      return r
    | .unary, operator :: rest =>
      match rest with
      | [] => fault (operator ++ ": argument expected")
      | x :: _ =>
        modify (·.drop 1)
        match operator with
        | "-z" => return x.isEmpty
        | "-n" => return !x.isEmpty
        | "-t" => do
          let _ ← demandNumber x
          return false
        | _ => fileTest operator x
    | _, x :: rest =>
      match rest with
      | operator :: rest =>
        if firstRole (operator :: rest) = .binary then
          match rest with
          | [] => fault (operator ++ ": argument expected")
          | y :: _ =>
            modify (·.drop 2)
            compareTest operator x y
        else return !x.isEmpty
      | [] => return !x.isEmpty

def Testing.negation : Nat → Role → Testing Bool
  | 0, _ => return false
  | fuel + 1, role => do
    if role = .not then
      return !(← negation fuel (← advance 1))
    else primary fuel role

def Testing.conjunction : Nat → Role → Testing Bool
  | 0, _ => return false
  | fuel + 1, role => do
    let r ← negation fuel role
    if firstRole ((← get).drop 1) = .both then
      let next ← advance 2
      return (← conjunction fuel next) && r
    else return r

def Testing.disjunction : Nat → Role → Testing Bool
  | 0, _ => return false
  | fuel + 1, role => do
    let r ← conjunction fuel role
    if firstRole ((← get).drop 1) = .either then
      let next ← advance 2
      return (← disjunction fuel next) || r
    else return r

end

/-- Read a test from its first word, which is of the given role. -/
def testFrom (words : List String) (role : Role) : Run Bool := do
  let (r, rest) ← (Testing.disjunction (8 * words.length + 8) role).run words
  match rest.drop 1 with
  | _ :: _ => fault (rest.headD "" ++ ": unexpected operator")
  | [] => return r

/-- The words of a test hold. -/
def test (words : List String) : Run Bool := do
  let enclosed := words.head? == some "(" && words.getLast? == some ")"
  let shortened := if enclosed then (words.drop 1).dropLast else words
  match words with
  | [] => return false
  | [_, operator, _] =>
    if roleOf operator = .binary then testFrom words .operand
    else if enclosed then testFrom shortened (firstRole shortened)
    else if words.head? == some "!" then return !(← testFrom (words.drop 1) (firstRole (words.drop 1)))
    else testFrom words (firstRole words)
  | [_, _, _, _] =>
    if enclosed then testFrom shortened (firstRole shortened)
    else if words.head? == some "!" then return !(← testFrom (words.drop 1) (firstRole (words.drop 1)))
    else testFrom words (firstRole words)
  | _ => testFrom words (firstRole words)

end Tangent.Shell
