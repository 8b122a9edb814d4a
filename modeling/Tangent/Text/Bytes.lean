/-!
# The bytes of a text

A text is a list of characters, and each character is one to four bytes. Bytes that come from outside
need not form characters: such a stray byte is kept as a character for private use. So `bytes` gives
back what `ofBytes` was made of, and a stray byte shows as the replacement character.
-/

namespace Tangent.Text

/-- Stray bytes are kept from this character on. -/
def strayBase : Nat := 0x10dc00

/-- The character that a stray byte is kept as. -/
def stray (b : UInt8) : Char :=
  Char.ofNat (strayBase + b.toNat)

/-- The byte that a character is kept for, if it is a stray one. -/
def stray? (c : Char) : Option UInt8 :=
  let n := c.toNat
  if strayBase + 0x80 ≤ n && n < strayBase + 0x100 then some (UInt8.ofNat (n - strayBase)) else none

/-- What bytes stand for that continue a character: six bits each. -/
def continuation? (b : UInt8) : Option Nat :=
  if b &&& 0xc0 = 0x80 then some (b.toNat % 64) else none

/-- A character of at least the given code. There are no characters among the surrogates. -/
def charFrom? (least code : Nat) : Option Char :=
  if h : code.isValidChar then
    if least ≤ code then some (Char.ofNatAux code h) else none
  else none

/-- The character that two or more bytes start with, and what follows it. It is written in as few
bytes as possible. -/
def wideChar? : List UInt8 → Option (Char × List UInt8)
  | a :: b :: rest =>
    let n := a.toNat
    if n / 32 = 6 then do
      let c ← charFrom? 0x80 (n % 32 * 64 + (← continuation? b))
      return (c, rest)
    else if n / 16 = 14 then do
      match rest with
      | c :: rest =>
        let code := (n % 16 * 64 + (← continuation? b)) * 64 + (← continuation? c)
        return (← charFrom? 0x800 code, rest)
      | [] => none
    else if n / 8 = 30 then do
      match rest with
      | c :: d :: rest =>
        let code := ((n % 8 * 64 + (← continuation? b)) * 64 + (← continuation? c)) * 64
          + (← continuation? d)
        return (← charFrom? 0x10000 code, rest)
      | _ => none
    else none
  | _ => none

/-- The characters of some bytes, with fuel for each byte. -/
def charsOf : Nat → List UInt8 → List Char
  | 0, _ => []
  | _, [] => []
  | fuel + 1, b :: rest =>
    if b < 0x80 then Char.ofNat b.toNat :: charsOf fuel rest
    else match wideChar? (b :: rest) with
      | some (c, rest) => c :: charsOf fuel rest
      | none => stray b :: charsOf fuel rest

/-- The text of some bytes. -/
def ofBytes (bytes : List UInt8) : String :=
  String.ofList (charsOf bytes.length bytes)

/-- The bytes of a character. -/
def bytesOf (c : Char) : List UInt8 :=
  match stray? c with
  | some b => [b]
  | none => String.utf8EncodeChar c

/-- The bytes of a text. -/
def bytes (s : String) : List UInt8 :=
  s.toList.flatMap bytesOf

/-- The number of bytes of a text. -/
def byteCount (s : String) : Nat :=
  (bytes s).length

/-- A text with a character for each byte. -/
def spread (s : String) : String :=
  String.ofList ((bytes s).map fun b => Char.ofNat b.toNat)

/-- The text whose bytes are given by characters. -/
def gather (s : String) : String :=
  ofBytes (s.toList.map fun c => UInt8.ofNat c.toNat)

/-- A text with every stray byte shown as the replacement character. -/
def shown (s : String) : String :=
  s.map fun c => if (stray? c).isSome then '�' else c

end Tangent.Text
