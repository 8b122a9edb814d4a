import Tangent.Decimal.Read
import Tangent.Text.Bytes
import Tangent.Yaml.Value

/-!
# What a plain scalar stands for

A plain scalar is nothing, a truth value, a whole number, a real number, a date or a text. Whole
numbers may be written in base 2, 8 or 16, with the usual marks, and a leading zero means base 8;
underscores between digits are dropped.
-/

namespace Tangent.Yaml

inductive Resolved
  | null
  | bool (b : Bool)
  | int (n : Int)
  | real (v : Float)
  /-- A date, maybe with a time of day, as it is written. -/
  | date (s : String)
  | text (s : String)

/-- The words that stand for something other than themselves. -/
def words : List (String × Resolved) :=
  let infinity : Float := 1.0 / 0.0
  [("", .null), ("~", .null), ("null", .null), ("Null", .null), ("NULL", .null),
    ("true", .bool true), ("True", .bool true), ("TRUE", .bool true),
    ("false", .bool false), ("False", .bool false), ("FALSE", .bool false),
    (".nan", .real (0.0 / 0.0)), (".NaN", .real (0.0 / 0.0)), (".NAN", .real (0.0 / 0.0)),
    (".inf", .real infinity), (".Inf", .real infinity), (".INF", .real infinity),
    ("+.inf", .real infinity), ("+.Inf", .real infinity), ("+.INF", .real infinity),
    ("-.inf", .real (-infinity)), ("-.Inf", .real (-infinity)), ("-.INF", .real (-infinity))]

/-- The value of a digit in bases up to 16. -/
def digitValue (c : Char) : Nat :=
  if c.isDigit then c.toNat - '0'.toNat
  else if 'a' ≤ c && c ≤ 'f' then c.toNat - 'a'.toNat + 10
  else if 'A' ≤ c && c ≤ 'F' then c.toNat - 'A'.toNat + 10
  else 16

/-- The natural number that digits of a base stand for. -/
def inBase? (base : Nat) (ds : List Char) : Option Nat :=
  if ds.isEmpty || ds.any (fun c => base ≤ digitValue c) then none
  else some (ds.foldl (fun n c => base * n + digitValue c) 0)

/-- A natural number with the mark of its base in front. -/
def natural? : List Char → Option Nat
  | '0' :: mark :: rest =>
    match mark.toLower with
    | 'x' => inBase? 16 rest
    | 'b' => inBase? 2 rest
    | 'o' => inBase? 8 rest
    | _ => inBase? 8 (mark :: rest)
  | ds => inBase? 10 ds

/-- A whole number. Negative ones fit into 64 bits with a sign, the others also without. -/
def whole? (s : String) : Option Int := do
  let (negative, cs) := Decimal.takeSign s.toList
  let signed := s.startsWith "-" || s.startsWith "+"
  let n ← natural? cs
  if negative then
    if n ≤ Nat.pow 2 63 then some (-Int.ofNat n) else none
  else if n < Nat.pow 2 63 || (!signed && n < Nat.pow 2 64) then some (Int.ofNat n)
  else none

/-- A number in base 2 or 8 whose sign stands behind the mark of the base. -/
def signedInside? (cs : List Char) : Option Int := do
  let inside (base : Nat) (ds : List Char) : Option Int := do
    let (negative, ds) := Decimal.takeSign ds
    let n ← inBase? base ds
    if negative then
      if n ≤ Nat.pow 2 63 then some (-Int.ofNat n) else none
    else if n < Nat.pow 2 63 then some (Int.ofNat n) else none
  match cs with
  | '0' :: 'b' :: ds => inside 2 ds
  | '0' :: 'o' :: ds => inside 8 ds
  | _ => none

/-- Every underscore stands between two digits. -/
def separatesDigits (afterDigit : Bool) : List Char → Bool
  | [] => true
  | '_' :: rest => afterDigit && rest.head?.any Char.isDigit && separatesDigits false rest
  | c :: rest => separatesDigits c.isDigit rest

/-! ## Dates -/

/-- A number of one or two digits, and what follows it. -/
def shortNumber? : List Char → Option (Nat × List Char)
  | a :: b :: rest =>
    if !a.isDigit then none
    else if b.isDigit then some (10 * digitValue a + digitValue b, rest)
    else some (digitValue a, b :: rest)
  | [a] => if a.isDigit then some (digitValue a, []) else none
  | [] => none

/-- The number of days of a month. -/
def daysOf (year month : Nat) : Nat :=
  if month = 2 then
    if year % 4 = 0 && (year % 100 ≠ 0 || year % 400 = 0) then 29 else 28
  else if [4, 6, 9, 11].contains month then 30
  else 31

/-- Something is a time zone: the letter `Z`, or the distance in hours and minutes. -/
def isZone : List Char → Bool
  | ['Z'] => true
  | [sign, a, b, ':', c, d] =>
    (sign == '+' || sign == '-') && [a, b, c, d].all Char.isDigit
      && 10 * digitValue a + digitValue b ≤ 24 && 10 * digitValue c + digitValue d ≤ 60
  | _ => false

/-- What follows a date is nothing or a time of day, which has a zone if a letter is in front of
it. -/
def isTimeOfDay : List Char → Option Bool
  | [] => some true
  | mark :: rest => do
    guard (mark == 'T' || mark == 't' || mark == ' ')
    let (hour, rest) ← shortNumber? (if mark == ' ' then rest.dropWhile (· == ' ') else rest)
    guard (hour < 24 && rest.head? == some ':')
    let (minute, rest) ← shortNumber? (rest.drop 1)
    guard (minute < 60 && rest.head? == some ':')
    let (second, rest) ← shortNumber? (rest.drop 1)
    guard (second < 60)
    let rest := match rest with
      | mark :: c :: more =>
        if (mark == '.' || mark == ',') && c.isDigit then more.dropWhile Char.isDigit else rest
      | _ => rest
    return if mark == ' ' then rest.isEmpty else isZone rest

/-- A text is a date, or a date with a time of day. -/
def isTimestamp (s : String) : Bool :=
  let cs := s.toList
  let year := cs.takeWhile Char.isDigit
  let rest := cs.drop year.length
  let n := year.foldl (fun n c => 10 * n + digitValue c) 0
  Option.getD (do
    guard (year.length = 4 && rest.head? == some '-')
    let (month, rest) ← shortNumber? (rest.drop 1)
    guard (1 ≤ month && month ≤ 12 && rest.head? == some '-')
    let (day, rest) ← shortNumber? (rest.drop 1)
    guard (1 ≤ day && day ≤ daysOf n month)
    isTimeOfDay rest) false

/-! ## Plain scalars -/

/-- The text starts like a number. -/
def looksNumeric (s : String) : Bool :=
  match s.toList with
  | c :: _ => c.isDigit || c == '+' || c == '-'
  | [] => false

/-- What a plain scalar stands for. A text that starts like a number is a date, if it can be one, or
else a number. -/
def resolve (s : String) : Resolved :=
  let digits := String.ofList (s.toList.filter (· ≠ '_'))
  match words.lookup s with
  | some r => r
  | none =>
    if s.startsWith "." then
      match if separatesDigits false s.toList then Decimal.read? digits else none with
      | some v => .real v
      | none => .text s
    else if isTimestamp s then .date s
    else if looksNumeric s then
      match whole? digits with
      | some n => .int n
      | none =>
        match Decimal.read? digits with
        | some v => .real v
        | none =>
          match signedInside? digits.toList with
          | some n => .int n
          | none => .text s
    else .text s

/-! ## Tags -/

/-- The tag of what a scalar stands for. -/
def Resolved.tag : Resolved → String
  | null => "!!null"
  | bool _ => "!!bool"
  | int _ => "!!int"
  | real _ => "!!float"
  | date _ => "!!timestamp"
  | text _ => "!!str"

/-- The value of a digit in base 64. -/
def sextet? (c : Char) : Option Nat :=
  if 'A' ≤ c && c ≤ 'Z' then some (c.toNat - 'A'.toNat)
  else if 'a' ≤ c && c ≤ 'z' then some (c.toNat - 'a'.toNat + 26)
  else if c.isDigit then some (c.toNat - '0'.toNat + 52)
  else if c == '+' then some 62
  else if c == '/' then some 63
  else none

/-- The bytes that digits in base 64 stand for, four digits for three bytes. The last four may be
padded. -/
def bytes64? : List Char → Option (List UInt8)
  | [] => some []
  | [a, b, '=', '='] => do
    let n := 64 * (← sextet? a) + (← sextet? b)
    return [UInt8.ofNat (n / 16)]
  | [a, b, c, '='] => do
    let n := 64 * (64 * (← sextet? a) + (← sextet? b)) + (← sextet? c)
    return [UInt8.ofNat (n / 1024), UInt8.ofNat (n / 4)]
  | a :: b :: c :: d :: rest => do
    let n := 64 * (64 * (64 * (← sextet? a) + (← sextet? b)) + (← sextet? c)) + (← sextet? d)
    return UInt8.ofNat (n / 65536) :: UInt8.ofNat (n / 256) :: UInt8.ofNat n :: (← bytes64? rest)
  | _ => none

/-- The text that is written in base 64. Line breaks do not count. -/
def text64? (s : String) : Option String := do
  return Text.ofBytes (← bytes64? (s.toList.filter fun c => c ≠ '\n' && c ≠ '\r'))

/-- What a scalar stands for that has a tag: it has to be something of that kind, and a whole number
may be tagged as a real one. A tag that names no kind of scalars makes it a text. -/
def resolveAs? (tag s : String) : Option Resolved :=
  let r := resolve s
  match tag with
  | "!!str" => some (.text s)
  | "!!binary" => .text <$> text64? s
  | "!!bool" | "!!int" | "!!null" | "!!timestamp" => if r.tag = tag then some r else none
  | "!!float" =>
    match r with
    | .real v => some (.real v)
    | .int n => if n < Int.pow 2 63 then some (.real (Float.ofInt n)) else none
    | _ => none
  | _ => some (.text s)

end Tangent.Yaml
