import Tangent.Text.Bytes
import Tangent.Text.Printable

/-!
# Quoted text

A text in double quotes, where quotes and backslashes are escaped, the usual control characters
have their short escapes, and every other character that is not printable is written by its code
point: two digits below 128, then four, then eight. A stray byte is written by two digits as well.
-/

namespace Tangent.Text

/-- The value of a hexadecimal digit. -/
def hexDigit? (c : Char) : Option Nat :=
  if c.isDigit then some (c.toNat - '0'.toNat)
  else if 'a' ≤ c && c ≤ 'f' then some (c.toNat - 'a'.toNat + 10)
  else if 'A' ≤ c && c ≤ 'F' then some (c.toNat - 'A'.toNat + 10)
  else none

/-- The last `width` hexadecimal digits of `n`, padded with zeros. -/
def hex (width n : Nat) : String :=
  let digits := Nat.toDigits 16 n
  String.ofList (List.replicate (width - digits.length) '0' ++ digits)

/-- How one character is written between quotes. -/
def escape (c : Char) : String :=
  if c = '"' then "\\\""
  else if c = '\\' then "\\\\"
  else if isPrintable c then String.singleton c
  else if let some b := stray? c then "\\x" ++ hex 2 b.toNat
  else
    match c.toNat with
    | 7 => "\\a"
    | 8 => "\\b"
    | 9 => "\\t"
    | 10 => "\\n"
    | 11 => "\\v"
    | 12 => "\\f"
    | 13 => "\\r"
    | n =>
      if n < 0x80 then "\\x" ++ hex 2 n
      else if n < 0x10000 then "\\u" ++ hex 4 n
      else "\\U" ++ hex 8 n

/-- The text in double quotes. -/
def quote (s : String) : String :=
  "\"" ++ String.join (s.toList.map escape) ++ "\""

/-- A character in single quotes. -/
def quoteChar (c : Char) : String :=
  "'" ++ (if c = '\'' then "\\'" else if c = '"' then "\"" else escape c) ++ "'"

/-- Quoted texts in brackets, separated by blanks. -/
def quoteAll (texts : List String) : String :=
  "[" ++ String.intercalate " " (texts.map quote) ++ "]"

end Tangent.Text
