/-!
# Lists on the command line

The items of a list are separated by commas and stand on one line; lines before it may be empty,
and what follows it is not read. An item may stand in double quotes, inside of which a quote is
written twice and the line may end. Lines and columns count from one, columns in bytes.
-/

namespace Tangent.Command

/-- Where a list is being read. -/
structure Place where
  /-- The line on which the list started. -/
  first : Nat
  line : Nat
  column : Nat

/-- Why a list cannot be read. -/
def Place.trouble (p : Place) (what : String) : String :=
  (if p.first = p.line then "" else "record on line " ++ toString p.first ++ "; ")
    ++ "parse error on line " ++ toString p.line ++ ", column " ++ toString p.column ++ ": " ++ what

def Place.after (p : Place) (c : Char) : Place :=
  { p with column := p.column + c.utf8Size }

def Place.nextLine (p : Place) : Place :=
  { p with line := p.line + 1, column := 1 }

/-- What has been read of an item. -/
inductive ItemState
  /-- Nothing. -/
  | fresh
  | plain
  | quoted
  /-- A quoted part, and the quote that ends it at the given place or is the first of two. -/
  | afterQuote (quote : Place)

/-- Read items from a place on. -/
def itemsFrom (done : List String) (item : String) (state : ItemState) (p : Place) :
    List Char → Except String (List String)
  | [] =>
    match state with
    | .quoted => .error (p.trouble "extraneous or missing \" in quoted-field")
    | _ => .ok (done ++ [item])
  | c :: rest =>
    match state with
    | .quoted =>
      if c == '"' then itemsFrom done item (.afterQuote p) (p.after c) rest
      else
        let next := if c == '\n' && !rest.isEmpty then p.nextLine else p.after c
        itemsFrom done (item.push c) .quoted next rest
    | .afterQuote quote =>
      if c == '"' then itemsFrom done (item.push c) .quoted (p.after c) rest
      else if c == ',' then itemsFrom (done ++ [item]) "" .fresh (p.after c) rest
      else if c == '\n' then .ok (done ++ [item])
      else .error (quote.trouble "extraneous or missing \" in quoted-field")
    | .fresh =>
      if c == '"' then itemsFrom done item .quoted (p.after c) rest
      else if c == ',' then itemsFrom (done ++ [item]) "" .fresh (p.after c) rest
      else if c == '\n' then .ok (done ++ [item])
      else itemsFrom done (item.push c) .plain (p.after c) rest
    | .plain =>
      if c == '"' then .error (p.trouble "bare \" in non-quoted-field")
      else if c == ',' then itemsFrom (done ++ [item]) "" .fresh (p.after c) rest
      else if c == '\n' then .ok (done ++ [item])
      else itemsFrom done (item.push c) .plain (p.after c) rest

/-- The same text with every line ended by a line feed alone. A carriage return at the very end is
dropped. -/
def plainLines : List Char → List Char
  | [] => []
  | '\r' :: '\n' :: rest => '\n' :: plainLines rest
  | ['\r'] => []
  | c :: rest => c :: plainLines rest

/-- The items of a list; the empty text has none. -/
def items (value : String) : Except String (List String) :=
  if value = "" then .ok []
  else
    let text := plainLines value.toList
    let line := (text.takeWhile (· == '\n')).length + 1
    match text.dropWhile (· == '\n') with
    | [] => .error "EOF"
    | text => itemsFrom [] "" .fresh { first := line, line, column := 1 } text

end Tangent.Command
