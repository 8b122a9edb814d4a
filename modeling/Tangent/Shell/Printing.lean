import Tangent.Shell.Numeral
import Tangent.Shell.Tests

/-!
# Printing

The texts that are printed for arguments: as they are with their escapes replaced, or by a format. A
format is printed when all of it is written, so what there is to say of its arguments comes first.
-/

namespace Tangent.Shell

/-! ## Escapes -/

/-- The value of octal digits, and what follows them. -/
def readOctal (most : Nat) (cs : List Char) : Nat × List Char :=
  let digits := (cs.take most).takeWhile fun c => '0' ≤ c && c ≤ '7'
  (digits.foldl (fun n c => n * 8 + (c.toNat - '0'.toNat)) 0, cs.drop digits.length)

/-- The character of a simple escape. -/
def simpleEscape? : Char → Option Char
  | 'a' => some '\x07'
  | 'b' => some '\x08'
  | 'e' => some '\x1b'
  | 'f' => some '\x0c'
  | 'n' => some '\n'
  | 'r' => some '\x0d'
  | 't' => some '\t'
  | 'v' => some '\x0b'
  | '\\' => some '\\'
  | _ => none

/-- What an escape stands for, given what follows its backslash, and the rest. Up to three octal digits
stand for a byte, and anything else for itself. -/
def escaped : List Char → List Char × List Char
  | [] => (['\\'], [])
  | c :: rest =>
    if '0' ≤ c && c ≤ '7' then
      let (n, rest) := readOctal 3 (c :: rest)
      ([Char.ofNat (n % 256)], rest)
    else match simpleEscape? c with
      | some d => ([d], rest)
      | none => (['\\', c], rest)

/-- Replace the escapes of a text. The second part of the result says that nothing is to be printed
after it. -/
def unescape : Nat → List Char → List Char × Bool
  | 0, _ => ([], false)
  | _, [] => ([], false)
  | _, '\\' :: 'c' :: _ => ([], true)
  | fuel + 1, '\\' :: '0' :: rest =>
    let (n, rest) := readOctal 3 rest
    let (cs, ends) := unescape fuel rest
    (Char.ofNat (n % 256) :: cs, ends)
  | fuel + 1, '\\' :: rest =>
    let (piece, rest) := escaped rest
    let (cs, ends) := unescape fuel rest
    (piece ++ cs, ends)
  | fuel + 1, c :: rest =>
    let (cs, ends) := unescape fuel rest
    (c :: cs, ends)

/-- What is printed for arguments with blanks between them. -/
def echoText (words : List String) : String :=
  let (newline, words) := match words with
    | "-n" :: words => (false, words)
    | words => (true, words)
  let text := (String.intercalate " " words).toList
  let (cs, ends) := unescape (text.length + 1) text
  String.ofList cs ++ if newline && !ends then "\n" else ""

/-! ## Formats -/

/-- A number in a place: written there, or given by an argument. -/
inductive Size
  | written (n : Nat)
  | argument

/-- A part of a format. -/
inductive Field
  | char (c : Char)
  /-- A place for an argument, with its width, its precision, and its text. -/
  | place (p : Place) (width : Size) (precision : Option Size) (text : String)
  /-- A place without a letter. -/
  | unfinished

/-- A number at the front of a text, or the mark for an argument. -/
def readSize : List Char → Size × List Char
  | '*' :: rest => (.argument, rest)
  | cs =>
    let (digits, rest) := Decimal.takeDigits cs
    (.written (Decimal.ofDigits digits), rest)

/-- The parts of a format. -/
def readFormat : Nat → List Char → List Field
  | 0, _ => []
  | _, [] => []
  | fuel + 1, '\\' :: rest =>
    let (piece, rest) := escaped rest
    piece.map .char ++ readFormat fuel rest
  | fuel + 1, '%' :: '%' :: rest => .char '%' :: readFormat fuel rest
  | fuel + 1, '%' :: whole =>
    let flags := whole.takeWhile fun c => ['-', '0', '+', ' ', '#'].contains c
    let (width, rest) := readSize (whole.drop flags.length)
    let (precision, rest) := match rest with
      | '.' :: rest =>
        let (n, rest) := readSize rest
        (some n, rest)
      | rest => (none, rest)
    match rest with
    | kind :: rest =>
      let place : Place := {
        kind
        left := flags.contains '-'
        zeros := flags.contains '0'
        plus := flags.contains '+'
        blank := flags.contains ' '
        marked := flags.contains '#' }
      let text := String.ofList ('%' :: whole.take (whole.length - rest.length))
      .place place width precision text :: readFormat fuel rest
    | [] => [.unfinished]
  | fuel + 1, c :: rest => .char c :: readFormat fuel rest

/-! ## Arguments -/

/-- The number of an argument, which is the code of a character behind a quote. What is wrong with it
is said, and the printing has failed. -/
def numberOf {α : Type} (read : List Char → ReadNumber α) (ofCode : Nat → α) (text : String) :
    Run α := do
  let wrong (reason : String) : Run Unit := do
    complain (text ++ ": " ++ reason)
    modify fun s => { s with status := 1 }
  match text.toList with
  | [] => return ofCode 0
  | c :: cs =>
    if c == '\'' || c == '"' then return ofCode ((cs.head?.map Char.toNat).getD 0)
    let r := read (c :: cs)
    match r.rest with
    | none => wrong "expected numeric value"
    | some (_ :: _) => wrong "not completely converted"
    | some [] => if r.outOfRange then wrong "Numerical result out of range"
    return r.value

/-- Whole numbers from `least` to `most`. -/
def readWithin (least most : Int) (cs : List Char) : ReadNumber Int :=
  let r := readWhole cs
  { r with
    value := max least (min most r.value)
    outOfRange := r.value < least || most < r.value }

/-- Whole numbers of 64 bits without a sign. One with a sign is counted down from above. -/
def readUnsigned (cs : List Char) : ReadNumber Int :=
  let r := readWhole cs
  if Nat.pow 2 64 ≤ r.value.natAbs then { r with value := Int.pow 2 64 - 1, outOfRange := true }
  else { r with value := r.value % Int.pow 2 64 }

def signedArgument (text : String) : Run Int :=
  numberOf (readWithin (-Int.pow 2 63) (Int.pow 2 63 - 1)) Int.ofNat text

/-- What is written of a format, and the arguments that are left. -/
structure Written where
  text : String := ""
  args : List String
  /-- An argument was asked for. -/
  used : Bool := false
  /-- Nothing is to be written any more, because of a mistake if there is one. -/
  ended : Option (Option String) := none

namespace Written

def add (w : Written) (text : String) : Written :=
  { w with text := w.text ++ text }

/-- Take an argument for a size. -/
def takeSize (w : Written) : Size → Run (Int × Written)
  | .written n => return (n, w)
  | .argument => return (← signedArgument (w.args.headD ""), { w with args := w.args.drop 1 })

/-- Write the next argument in a place. -/
def place (w : Written) (p : Place) (text : String) : Run Written := do
  let argument := w.args.headD ""
  let w := { w with args := w.args.drop 1, used := true }
  let cut (s : String) : String := match p.precision with
    | some n => String.ofList (s.toList.take n)
    | none => s
  match p.kind with
  | 's' => return w.add (p.fill (cut argument))
  | 'c' =>
    let c := argument.toList.headD '\x00'
    return w.add (p.fill (String.singleton c))
  | 'b' =>
    let (cs, ends) := unescape (argument.length + 1) argument.toList
    let w := w.add (p.fill (cut (String.ofList cs)))
    return if ends then { w with ended := some none } else w
  | 'd' | 'i' => return w.add (p.signed (← signedArgument argument))
  | 'o' | 'u' | 'x' | 'X' =>
    let n ← numberOf readUnsigned Int.ofNat argument
    return w.add (p.unsigned n.toNat)
  | 'a' | 'A' | 'e' | 'E' | 'f' | 'F' | 'g' | 'G' =>
    return w.add (p.real (← numberOf readReal Float.ofNat argument))
  | _ => return { w with ended := some (some (text ++ ": invalid directive")) }

/-- Write a part of a format. -/
def field (w : Written) (f : Field) : Run Written := do
  if w.ended.isSome then return w
  match f with
  | .char c => return w.add (String.singleton c)
  | .unfinished => return { w with ended := some (some "missing format character") }
  | .place p width precision text =>
    let (width, w) ← w.takeSize width
    let (precision, w) ← match precision with
      | none => pure (none, w)
      | some size => do
        let (n, w) ← w.takeSize size
        pure (if n < 0 then none else some n.toNat, w)
    let left := p.left || width < 0
    w.place { p with left, width := width.natAbs, precision } text

end Written

/-- Write a format, again and again as long as there are arguments. -/
def writeRounds (fields : List Field) : Nat → Written → Run Written
  | 0, w => return w
  | fuel + 1, w => do
    let w ← fields.foldlM Written.field { w with used := false }
    if w.ended.isNone && w.used && !w.args.isEmpty then writeRounds fields fuel w else return w

/-- Print arguments by a format; the result is the status. -/
def printFormat (words : List String) : Run Nat := do
  match if words.head? == some "--" then words.drop 1 else words with
  | [] => fault "usage: printf format [arg ...]"
  | format :: args =>
    if words.head? ≠ some "--" then
      if let '-' :: c :: _ := format.toList then fault ("Illegal option -" ++ String.singleton c)
    modify fun s => { s with status := 0 }
    let fields := readFormat (format.length + 1) format.toList
    let w ← writeRounds fields (args.length + 1) { args }
    if let some (some mistake) := w.ended then
      complain mistake
      print 1 w.text
      modify fun s => { s with status := 2 }
      throw .fault
    print 1 w.text
    return (← get).status

end Tangent.Shell
