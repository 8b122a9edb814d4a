import Tangent.Shell.State

/-!
# Arithmetic

The value of an expression over whole numbers of 64 bits. Variables may be set in it. A part that is
not needed is read but not computed.
-/

namespace Tangent.Shell

/-- The text of an expression, and what is left of it. -/
structure Sum where
  whole : String
  rest : List Char

/-- A computation that reads an expression. -/
abbrev Summing := StateT Sum Run

/-- Give up on an expression. -/
def Summing.fail {α : Type} (text : String) : Summing α := do
  let whole := (← get).whole
  Shell.fault ("arithmetic expression: " ++ text ++ ": \"" ++ whole ++ "\"")

def Summing.skipBlanks : Summing Unit :=
  modify fun s => { s with rest := s.rest.dropWhile fun c => c == ' ' || c == '\t' || c == '\n' }

/-- The operators, longer ones first. -/
def sumOperators : List String :=
  ["<<=", ">>=", "<<", ">>", "<=", ">=", "==", "!=", "&&", "||", "+=", "-=", "*=", "/=", "%=", "&=",
    "|=", "^=", "+", "-", "*", "/", "%", "<", ">", "&", "|", "^", "!", "~", "=", "?", ":", "(", ")"]

/-- The operator at the front. -/
def Summing.operator? : Summing (Option String) := do
  skipBlanks
  let rest := (← get).rest
  return sumOperators.find? fun o => o.toList.isPrefixOf rest

def Summing.skip (o : String) : Summing Unit :=
  modify fun s => { s with rest := s.rest.drop o.length }

/-- How tightly an operator between two numbers binds. -/
def tightness? (o : String) : Option Nat :=
  match o with
  | "*" | "/" | "%" => some 10
  | "+" | "-" => some 9
  | "<<" | ">>" => some 8
  | "<" | "<=" | ">" | ">=" => some 7
  | "==" | "!=" => some 6
  | "&" => some 5
  | "^" => some 4
  | "|" => some 3
  | _ => none

def truth (b : Bool) : Int64 :=
  if b then 1 else 0

/-- The value of an operator; none for a division by zero. -/
def combine? (o : String) (x y : Int64) : Option Int64 :=
  match o with
  | "*" => some (x * y)
  | "/" => if y = 0 then none else some (x / y)
  | "%" => if y = 0 then none else some (x % y)
  | "+" => some (x + y)
  | "-" => some (x - y)
  | "<<" => some (x <<< y)
  | ">>" => some (x >>> y)
  | "<" => some (truth (x < y))
  | "<=" => some (truth (x ≤ y))
  | ">" => some (truth (x > y))
  | ">=" => some (truth (x ≥ y))
  | "==" => some (truth (x = y))
  | "!=" => some (truth (x ≠ y))
  | "&" => some (x &&& y)
  | "^" => some (x ^^^ y)
  | "|" => some (x ||| y)
  | _ => some 0

/-- The number at the front, in base 8, 10 or 16, and what follows it. Numbers that are too large
are cut. -/
def readNumber (cs : List Char) : Int × List Char :=
  let inBase (base : Nat) (cs : List Char) : Int × List Char :=
    let fits (c : Char) := (Text.hexDigit? c).any (· < base)
    let n := (cs.takeWhile fits).foldl (fun n c => n * base + (Text.hexDigit? c).getD 0) 0
    (min n (Int.pow 2 63 - 1), cs.dropWhile fits)
  match cs with
  | '0' :: x :: c :: rest =>
    if (x == 'x' || x == 'X') && (Text.hexDigit? c).isSome then inBase 16 (c :: rest)
    else inBase 8 cs
  | '0' :: _ => inBase 8 cs
  | _ => inBase 10 cs

/-- The whole of a text as a number; blanks may stand around it. -/
def wholeNumber? (text : String) : Option Int :=
  let cs := text.toList.dropWhile Char.isWhitespace
  let (negative, ds) := match cs with
    | '-' :: ds => (true, ds)
    | '+' :: ds => (false, ds)
    | ds => (false, ds)
  match ds with
  | c :: _ =>
    if c.isDigit then
      let (n, rest) := readNumber ds
      if rest.all Char.isWhitespace then some (if negative then -n else n) else none
    else none
  | [] => none

/-- The value of a variable in an expression. -/
def Summing.valueOf (name : String) : Summing Int64 := do
  match (← getThe State).value? name with
  | none => return 0
  | some text =>
    if text.isEmpty then return 0
    match wholeNumber? text with
    | some n => return Int64.ofInt n
    | none => Shell.fault ("Illegal number: " ++ text)

mutual

/-- A number, a variable, an expression in parentheses, or one of these with a sign. -/
def Summing.unary : Nat → Bool → Summing Int64
  | 0, _ => fail "expecting primary"
  | fuel + 1, live => do
    match ← operator? with
    | some "(" =>
      skip "("
      let x ← assignment fuel live
      match ← operator? with
      | some ")" =>
        skip ")"
        return x
      | _ => fail "expecting ')'"
    | some "!" | some "!=" =>
      skip "!"
      return truth ((← unary fuel live) = 0)
    | some "~" =>
      skip "~"
      return ~~~(← unary fuel live)
    | some "-" =>
      skip "-"
      return -(← unary fuel live)
    | some "+" =>
      skip "+"
      unary fuel live
    | _ =>
      let rest := (← get).rest
      match rest with
      | c :: _ =>
        if c.isDigit then
          let (n, rest) := readNumber rest
          modify fun s => { s with rest }
          return Int64.ofInt n
        else if isNameStart c then
          let name := String.ofList (rest.takeWhile isNameChar)
          skip name
          if live then valueOf name else return 0
        else fail "expecting primary"
      | [] => fail "expecting primary"

/-- Operators that bind at least as tightly as given. -/
def Summing.binary : Nat → Bool → Nat → Summing Int64
  | 0, _, _ => fail "expecting primary"
  | fuel + 1, live, least => do
    let x ← unary fuel live
    binaryFrom fuel live least x

def Summing.binaryFrom : Nat → Bool → Nat → Int64 → Summing Int64
  | 0, _, _, _ => fail "expecting primary"
  | fuel + 1, live, least, x => do
    let some o ← operator? | return x
    let some t := tightness? o | return x
    if t < least then return x
    skip o
    let y ← binary fuel live (t + 1)
    match if live then combine? o x y else some 0 with
    | some z => binaryFrom fuel live least z
    | none => fail "division by zero"

def Summing.conjunction : Nat → Bool → Summing Int64
  | 0, _ => fail "expecting primary"
  | fuel + 1, live => do
    let x ← binary fuel live 0
    match ← operator? with
    | some "&&" =>
      skip "&&"
      let y ← conjunction fuel (live && x ≠ 0)
      return truth (x ≠ 0 && y ≠ 0)
    | _ => return x

def Summing.disjunction : Nat → Bool → Summing Int64
  | 0, _ => fail "expecting primary"
  | fuel + 1, live => do
    let x ← conjunction fuel live
    match ← operator? with
    | some "||" =>
      skip "||"
      let y ← disjunction fuel (live && x = 0)
      return truth (x ≠ 0 || y ≠ 0)
    | _ => return x

def Summing.choice : Nat → Bool → Summing Int64
  | 0, _ => fail "expecting primary"
  | fuel + 1, live => do
    let x ← disjunction fuel live
    match ← operator? with
    | some "?" =>
      skip "?"
      let y ← assignment fuel (live && x ≠ 0)
      match ← operator? with
      | some ":" =>
        skip ":"
        let z ← choice fuel (live && x = 0)
        return if x ≠ 0 then y else z
      | _ => fail "expecting ':'"
    | _ => return x

/-- An expression, which may set a variable. -/
def Summing.assignment : Nat → Bool → Summing Int64
  | 0, _ => fail "expecting primary"
  | fuel + 1, live => do
    skipBlanks
    let start := (← get).rest
    let name := String.ofList (start.takeWhile isNameChar)
    if isName name then
      skip name
      match ← operator? with
      | some o =>
        let plain := o = "="
        let change := o.endsWith "=" && !(["==", "!=", "<=", ">="].contains o)
        if change then
          skip o
          let y ← assignment fuel live
          if !live then return 0
          let value? ← if plain then pure (some y)
            else do
              pure (combine? (String.ofList (o.toList.dropLast)) (← valueOf name) y)
          let some value := value? | fail "division by zero"
          Shell.assign name (toString value.toInt)
          return value
      | none => pure ()
      modify fun s => { s with rest := start }
    choice fuel live

end

/-- The value of an expression. -/
def evaluate (text : String) : Run String := do
  let start : Sum := { whole := text, rest := text.toList }
  let read : Summing Int64 := do
    let x ← Summing.assignment (16 * text.length + 64) true
    Summing.skipBlanks
    if (← get).rest.isEmpty then return x else Summing.fail "expecting EOF"
  let (x, _) ← read.run start
  return toString x.toInt

end Tangent.Shell
