import Tangent.Shell.Script

/-!
# Reading scripts

A script is read a line at a time, so that the lines before a mistake are run. A line ends where all
that was begun in it is complete. A word where a command starts may be another name for a text, which
is then read in its place.

Every step takes a character or a token, so fuel in proportion to the length of the script is
enough.
-/

namespace Tangent.Shell

inductive Token
  | word (word : Word)
  /-- An operator, a line break among them. -/
  | operator (text : String)
  /-- A redirection of a channel. -/
  | redirect (channel : Option Nat) (text : String)
  | finish

/-- A mistake in a script. -/
structure Mistake where
  line : Nat
  text : String

structure Source where
  rest : List Char
  line : Nat := 1
  /-- A token that was looked at, and how much there was to read at its start. -/
  seen : Option Token := none
  start : Nat := 0
  /-- The lines that were taken out behind the one that is being read. -/
  hidden : Nat := 0
  /-- The words that are other names for texts. -/
  aliases : List (String × String) := []
  /-- The words that were replaced, and how much there is to read behind their texts. -/
  replaced : List (String × Nat) := []
  /-- How much there is to read behind a text after which another word may be replaced. -/
  eager : Option Nat := none

abbrev Reading := StateT Source (Except Mistake)

def wrong {α : Type} (text : String) : Reading α := do
  throw ⟨(← get).line, "Syntax error: " ++ text⟩

/-! ## Characters -/

def nextChar? : Reading (Option Char) :=
  return (← get).rest.head?

def skipChars (n : Nat) : Reading Unit :=
  modify fun s =>
    let lines := (s.rest.take n).count '\n'
    if lines = 0 then { s with rest := s.rest.drop n }
    else { s with rest := s.rest.drop n, line := s.line + lines + s.hidden, hidden := 0 }

/-- The rest of the script starts with a text. -/
def startsWith (text : String) : Reading Bool :=
  return text.toList.isPrefixOf (← get).rest

/-- Take characters as long as they fit. -/
def takeChars (fits : Char → Bool) : Reading String := do
  let cs := (← get).rest.takeWhile fits
  skipChars cs.length
  return String.ofList cs

/-- Drop blanks, comments and line breaks after a backslash. -/
def skipBlanks : Nat → Reading Unit
  | 0 => return
  | fuel + 1 => do
    match (← get).rest with
    | '\\' :: '\n' :: _ =>
      skipChars 2
      skipBlanks fuel
    | c :: _ =>
      if c == ' ' || c == '\t' then
        skipChars 1
        skipBlanks fuel
      else if c == '#' then
        let _ ← takeChars (· != '\n')
    | [] => return

/-! ## Pieces -/

/-- What ends a row of pieces. -/
inductive Fence
  | bare
  | doubleQuote
  /-- The brace that closes a value, which may stand in quotes. -/
  | brace (quoted : Bool)
  /-- Two parentheses, after those that are still open. -/
  | sum (depth : Nat)
  /-- The end of a text that is given as input. -/
  | here

/-- A part of a word stands in double quotes. -/
def Fence.isQuoted : Fence → Bool
  | bare => false
  | doubleQuote => true
  | brace quoted => quoted
  | sum _ | here => true

/-- Put a character at the end of the pieces, which are kept in reverse. -/
def pushChar (c : Char) (quoted : Bool) : List Piece → List Piece
  | .text s q :: rest => if q == quoted then .text (s.push c) q :: rest
    else .text (String.singleton c) quoted :: .text s q :: rest
  | pieces => .text (String.singleton c) quoted :: pieces

def isSeparator (c : Char) : Bool :=
  [' ', '\t', '\n', ';', '&', '|', '<', '>', '(', ')'].contains c

/-- The parameters with one character that is not of a name. -/
def isSpecial (c : Char) : Bool :=
  ['@', '*', '#', '?', '$', '!', '-'].contains c || c.isDigit

/-- The text up to a back quote, without the backslashes that protect. -/
def readBackQuoted (quoted : Bool) (taken : List Char) : List Char → Option (List Char × List Char)
  | [] => none
  | '\x60' :: rest => some (taken.reverse, rest)
  | '\\' :: c :: rest =>
    if c == '\\' || c == '\x60' || c == '$' || (quoted && c == '"') then
      readBackQuoted quoted (c :: taken) rest
    else readBackQuoted quoted (c :: '\\' :: taken) rest
  | c :: rest => readBackQuoted quoted (c :: taken) rest

/-- What is done with the value of a parameter, and whether an empty value is missing. -/
def readUse : Reading (Use × Bool) := do
  let emptyToo ← startsWith ":"
  if emptyToo then skipChars 1
  let mark ← nextChar?
  let use : Use := match mark with
    | some '-' => .default
    | some '=' => .assign
    | some '?' => .demand
    | some '+' => .alternative
    | _ => .unreadable
  if use ≠ .unreadable then
    skipChars 1
    return (use, emptyToo)
  if emptyToo then return (.unreadable, true)
  if ← startsWith "%%" then skipChars 2; return (.cutBack true, false)
  if ← startsWith "%" then skipChars 1; return (.cutBack false, false)
  if ← startsWith "##" then skipChars 2; return (.cutFront true, false)
  if ← startsWith "#" then skipChars 1; return (.cutFront false, false)
  return (if mark == some '\x7d' then .plain else .unreadable, false)

/-- A pattern is cut off. Quotes in the pattern count even inside of others. -/
def Use.cuts : Use → Bool
  | cutFront _ | cutBack _ => true
  | _ => false

/-- The name of a parameter. -/
def readParameter : Reading String := do
  match ← nextChar? with
  | none => return ""
  | some c =>
    if isNameStart c then takeChars isNameChar
    else if c.isDigit then takeChars Char.isDigit
    else if isSpecial c then
      skipChars 1
      return String.singleton c
    else return ""

/-- The words that may have a meaning of their own at the start of a command. -/
def keywords : List String :=
  ["!", "case", "do", "done", "elif", "else", "esac", "fi", "for", "if", "in", "then", "until",
    "while", "\x7b", "\x7d"]

/-- How a token is named in a message, where keywords count if `reserved` holds. -/
def Token.describe (reserved : Bool) : Token → String
  | .word w => match Word.bare? w with
    | some s => if reserved && keywords.contains s then "\"" ++ s ++ "\"" else "word"
    | none => "word"
  | .operator "\n" => "newline"
  | .operator text => "\"" ++ text ++ "\""
  | .redirect .. => "redirection"
  | .finish => "end of file"

/-- The token is a word with a meaning of its own. -/
def Token.isKeyword : Token → Bool
  | .word w => (Word.bare? w).any keywords.contains
  | _ => false

/-- Fail at a token. -/
def unexpected {α : Type} (t : Token) (reserved : Bool) (wanted : Option String) : Reading α :=
  wrong (t.describe reserved ++ " unexpected" ++
    match wanted with
    | some w => " (expecting \"" ++ w ++ "\")"
    | none => "")

/-- The words that end a list of commands. -/
def endsList (t : Token) : Bool :=
  match t with
  | .finish => true
  | .operator text => text == ")" || text == ";;"
  | .word w => match Word.bare? w with
    | some s => ["do", "done", "elif", "else", "esac", "fi", "then", "\x7d"].contains s
    | none => false
  | _ => false

/-- An assignment at the front of a command: a name, and the word behind the equals sign. -/
def assignment? : Word → Option (String × Word)
  | .text s false :: rest =>
    let name := s.toList.takeWhile (· != '=')
    if name.length < s.length && isName (String.ofList name) then
      let value := String.ofList (s.toList.drop (name.length + 1))
      some (String.ofList name, if value.isEmpty then rest else .text value false :: rest)
    else none
  | _ => none

/-- The commands that may not be redefined. -/
def specialNames : List String :=
  [".", ":", "break", "continue", "eval", "exec", "exit", "export", "readonly", "return", "set",
    "shift", "times", "trap", "unset"]

def operators : List String :=
  ["&&", "&", "||", "|", ";;", ";", "(", ")", "\n"]

def redirections : List String :=
  ["<<-", "<<", ">>", ">|", ">&", ">", "<&", "<>", "<"]

/-- The text of a word as it is written, and whether a part of it is quoted. -/
def Word.delimiter (w : Word) : String × Bool :=
  w.foldl (fun (text, protects) piece =>
    match piece with
    | .text s quoted => (text ++ s, protects || quoted)
    | _ => (text, protects)) ("", false)

/-- The lines up to a delimiter, and the rest behind it. -/
def takeLines (delimiter : String) (strip : Bool) : List String → List String × List String
  | [] => ([], [])
  | line :: rest =>
    let line := if strip then String.ofList (line.toList.dropWhile (· == '\t')) else line
    if line = delimiter then ([], rest)
    else
      let (body, rest) := takeLines delimiter strip rest
      (line :: body, rest)

/-- Take the lines that are given as input out of the script. They follow the line that is being
read. -/
def takeBody (delimiter : String) (strip : Bool) : Reading String := do
  let s ← get
  let here := s.rest.takeWhile (· != '\n')
  let after := String.ofList (s.rest.drop (here.length + 1))
  let lines := after.splitOn "\n"
  let (body, rest) := takeLines delimiter strip lines
  set { s with
    rest := here ++ '\n' :: (String.intercalate "\n" rest).toList
    hidden := s.hidden + (lines.length - rest.length)
    replaced := [], eager := none }
  let whole := rest.isEmpty && lines.getLast? == some "" && body.length = lines.length
  let body := if whole then body.dropLast else body
  return String.join (body.map (· ++ "\n"))

/-- Replace the token that was looked at, if it is another name that is not being replaced. -/
def replaceAlias (t : Token) : Reading Bool := do
  let .word w := t | return false
  let some name := Word.bare? w | return false
  let s ← get
  let some text := s.aliases.lookup name | return false
  let left := s.rest.length
  if s.replaced.any fun (other, n) => other = name && n ≤ left then return false
  let blank := text.endsWith " " || text.endsWith "\t"
  set { s with
    seen := none
    rest := text.toList ++ s.rest
    replaced := (name, left) :: s.replaced
    eager := if blank then some left else s.eager }
  return true

/-- Replace the token that was looked at, if it stands behind a text that ends in a blank. -/
def replaceEager (t : Token) : Reading Bool := do
  let s ← get
  match s.eager with
  | some left =>
    if s.start ≤ left then
      set { s with eager := none }
      replaceAlias t
    else return false
  | none => return false

mutual

/-- Read pieces up to a fence, which is taken too. -/
def readPieces : Nat → Fence → List Piece → Reading Word
  | 0, _, _ => wrong "too long"
  | fuel + 1, fence, pieces => do
    let keep (c : Char) (quoted : Bool) : Reading Word := do
      skipChars 1
      readPieces fuel fence (pushChar c quoted pieces)
    match (← get).rest with
    | [] => match fence with
      | .bare | .here => return pieces.reverse
      | .doubleQuote | .brace true => wrong "Unterminated quoted string"
      | .brace false => wrong "Missing '\x7d'"
      | .sum _ => wrong "Missing '))'"
    | '\\' :: c :: _ =>
      if c == '\n' then
        skipChars 2
        readPieces fuel fence pieces
      else
        let protects := match fence with
          | .bare | .brace false => true
          | .doubleQuote => ['$', '"', '\\', '\x60'].contains c
          | .brace true => ['$', '"', '\\', '\x60', '\x7d'].contains c
          | .sum _ | .here => ['$', '\\', '\x60'].contains c
        if protects then
          skipChars 2
          readPieces fuel fence (pushChar c true pieces)
        else keep '\\' true
    | '\'' :: rest =>
      if fence.isQuoted then keep '\'' true
      else
        let inside := rest.takeWhile (· != '\'')
        if inside.length = rest.length then
          skipChars rest.length
          wrong "Unterminated quoted string"
        else
          skipChars (inside.length + 2)
          readPieces fuel fence (.text (String.ofList inside) true :: pieces)
    | '"' :: _ =>
      match fence with
      | .doubleQuote =>
        skipChars 1
        return pieces.reverse
      | .sum _ | .here => keep '"' true
      | .brace true =>
        skipChars 1
        readPieces fuel fence pieces
      | _ =>
        skipChars 1
        let inside ← readPieces fuel .doubleQuote []
        let inside := if inside.isEmpty then [.text "" true] else inside
        readPieces fuel fence (inside.reverse ++ pieces)
    | '$' :: _ =>
      skipChars 1
      let piece ← readDollar fuel fence.isQuoted
      readPieces fuel fence (piece :: pieces)
    | '\x60' :: rest =>
      match readBackQuoted fence.isQuoted [] rest with
      | none =>
        skipChars (rest.length + 1)
        wrong "EOF in backquote substitution"
      | some (text, after) =>
        let outer ← get
        set { rest := text, line := outer.line, aliases := outer.aliases : Source }
        let command ← readList fuel 0 .nothing
        modify fun s => { outer with rest := after, seen := none, line := s.line }
        readPieces fuel fence (.output command fence.isQuoted :: pieces)
    | c :: rest =>
      match fence with
      | .bare =>
        if isSeparator c then return pieces.reverse else keep c false
      | .doubleQuote | .here => keep c true
      | .brace quoted =>
        if c == '\x7d' then
          skipChars 1
          return pieces.reverse
        else if c == '\n' && !quoted then wrong "Missing '\x7d'"
        else keep c quoted
      | .sum depth =>
        if c == '(' then
          skipChars 1
          readPieces fuel (.sum (depth + 1)) (pushChar c true pieces)
        else if c == ')' then
          if depth = 0 then
            if rest.head? == some ')' then
              skipChars 2
              return pieces.reverse
            else keep c true
          else
            skipChars 1
            readPieces fuel (.sum (depth - 1)) (pushChar c true pieces)
        else keep c true

/-- Read what follows a dollar sign. -/
def readDollar : Nat → Bool → Reading Piece
  | 0, _ => wrong "too long"
  | fuel + 1, quoted => do
    if ← startsWith "((" then
      skipChars 2
      return .sum (← readPieces fuel (.sum 0) []) quoted
    else if ← startsWith "(" then
      skipChars 1
      let command ← readList fuel 0 .nothing
      expectOperator fuel ")"
      return .output command quoted
    else if ← startsWith "\x7b" then
      skipChars 1
      if (← startsWith "#") && !(← startsWith "#\x7d") then
        skipChars 1
        let name ← readParameter
        if ← startsWith "\x7d" then
          skipChars 1
          return .value name (if name.isEmpty then .unreadable else .length) false [] quoted
        let _ ← readPieces fuel (.brace quoted) []
        return .value name .unreadable false [] quoted
      let name ← readParameter
      let (use, emptyToo) ← readUse
      let word ← readPieces fuel (.brace (quoted && !use.cuts)) []
      return .value name (if name.isEmpty then .unreadable else use) emptyToo word quoted
    else
      match ← nextChar? with
      | none => return .text "$" true
      | some c =>
        if isNameStart c then
          return .value (← takeChars isNameChar) .plain false [] quoted
        else if isSpecial c then
          skipChars 1
          return .value (String.singleton c) .plain false [] quoted
        else return .text "$" true

/-- Read a token. -/
def readToken : Nat → Reading Token
  | 0 => wrong "too long"
  | fuel + 1 => do
    skipBlanks fuel
    modify fun s => { s with start := s.rest.length }
    match (← get).rest with
    | [] => return .finish
    | c :: rest =>
      let digit := if c.isDigit && (rest.head? == some '<' || rest.head? == some '>') then
        some (c.toNat - '0'.toNat) else none
      if digit.isSome then skipChars 1
      let text := (← get).rest
      match redirections.find? fun r => r.toList.isPrefixOf text with
      | some r =>
        skipChars r.length
        return .redirect digit r
      | none =>
        match operators.find? fun r => r.toList.isPrefixOf text with
        | some r =>
          skipChars r.length
          return .operator r
        | none => return .word (← readPieces fuel .bare [])

/-- Look at the next token. -/
def peekToken : Nat → Reading Token
  | 0 => wrong "too long"
  | fuel + 1 => do
    match (← get).seen with
    | some t => return t
    | none =>
      let t ← readToken fuel
      modify fun s => { s with seen := some t }
      return t

/-- Look at the next token, where a command may start: a word that is another name is replaced. -/
def peekCommand : Nat → Reading Token
  | 0 => wrong "too long"
  | fuel + 1 => do
    let t ← peekToken fuel
    if !t.isKeyword then
      if ← replaceAlias t then return ← peekCommand fuel
    return t

/-- Take the next token. -/
def takeToken : Nat → Reading Token
  | 0 => wrong "too long"
  | fuel + 1 => do
    let t ← peekToken fuel
    modify fun s => { s with seen := none }
    return t

/-- Look at the next token that is not a line break. -/
def peekAfterLines : Nat → Reading Token
  | 0 => wrong "too long"
  | fuel + 1 => do
    match ← peekToken fuel with
    | .operator "\n" =>
      modify fun s => { s with seen := none }
      peekAfterLines fuel
    | t => return t

def expectOperator : Nat → String → Reading Unit
  | 0, _ => wrong "too long"
  | fuel + 1, text => do
    match ← takeToken fuel with
    | .operator s => if s = text then return else unexpected (.operator s) true (some text)
    | t => unexpected t true (some text)

/-- Take a keyword, after line breaks. -/
def expectKeyword : Nat → String → Reading Unit
  | 0, _ => wrong "too long"
  | fuel + 1, text => do
    let t ← peekAfterLines fuel
    modify fun s => { s with seen := none }
    match t with
    | .word w => if Word.bare? w = some text then return else unexpected t true (some text)
    | t => unexpected t true (some text)

/-- Read commands up to a token that ends them, which is left. With `stage` 0 there has to be a
command, with 2 there need not be one. -/
def readList : Nat → Nat → Command → Reading Command
  | 0, _, _ => wrong "too long"
  | fuel + 1, stage, before => do
    let t ← peekAfterLines fuel
    if t matches .finish then return before
    if stage = 2 && endsList t then return before
    let command ← readChain fuel
    let t ← peekToken fuel
    let ended := t matches .operator "&"
    let command := if ended then .background command else command
    let before := match before with
      | .nothing => command
      | b => .sequence b command
    match t with
    | .operator "&" | .operator ";" =>
      modify fun s => { s with seen := none }
      readList fuel 2 before
    | .operator "\n" => readList fuel 2 before
    | _ => return before

/-- Read commands that are joined by `&&` and `||`. -/
def readChain : Nat → Reading Command
  | 0 => wrong "too long"
  | fuel + 1 => do
    readChainFrom fuel (← readPipeline fuel)

def readChainFrom : Nat → Command → Reading Command
  | 0, _ => wrong "too long"
  | fuel + 1, before => do
    match ← peekToken fuel with
    | .operator "&&" =>
      modify fun s => { s with seen := none }
      let _ ← peekAfterLines fuel
      readChainFrom fuel (.both before (← readPipeline fuel))
    | .operator "||" =>
      modify fun s => { s with seen := none }
      let _ ← peekAfterLines fuel
      readChainFrom fuel (.either before (← readPipeline fuel))
    | _ => return before

/-- Read commands that are joined by `|`. -/
def readPipeline : Nat → Reading Command
  | 0 => wrong "too long"
  | fuel + 1 => do
    match ← peekCommand fuel with
    | .word [.text "!" false] =>
      modify fun s => { s with seen := none }
      return .negation (← readPipes fuel (← readCommand fuel))
    | _ => readPipes fuel (← readCommand fuel)

def readPipes : Nat → Command → Reading Command
  | 0, _ => wrong "too long"
  | fuel + 1, first => do
    match ← peekToken fuel with
    | .operator "|" =>
      modify fun s => { s with seen := none }
      let _ ← peekAfterLines fuel
      return .pipe first (← readPipes fuel (← readCommand fuel))
    | _ => return first

/-- Read a command with its redirections. -/
def readCommand : Nat → Reading Command
  | 0 => wrong "too long"
  | fuel + 1 => do
    let t ← peekCommand fuel
    let drop : Reading Unit := modify fun s => { s with seen := none }
    let word? := match t with
      | .word w => Word.bare? w
      | _ => none
    match t, word? with
    | _, some "if" =>
      drop
      readRedirected fuel (← readChoice fuel)
    | _, some "while" =>
      drop
      readRedirected fuel (← readLoop fuel true)
    | _, some "until" =>
      drop
      readRedirected fuel (← readLoop fuel false)
    | _, some "for" =>
      drop
      readRedirected fuel (← readEach fuel)
    | _, some "case" =>
      drop
      readRedirected fuel (← readCases fuel)
    | _, some "\x7b" =>
      drop
      let body ← readList fuel 0 .nothing
      expectKeyword fuel "\x7d"
      readRedirected fuel body
    | .operator "(", _ =>
      drop
      let body ← readList fuel 0 .nothing
      expectOperator fuel ")"
      readRedirected fuel (.subshell body)
    | .word _, some s =>
      if keywords.contains s && s != "in" then unexpected t true none
      else readSimple fuel (← get).line [] [] []
    | .word _, none => readSimple fuel (← get).line [] [] []
    | .redirect .., _ => readSimple fuel (← get).line [] [] []
    | t, _ => unexpected t true none

/-- Read the redirections of a command that is not simple. -/
def readRedirected : Nat → Command → Reading Command
  | 0, _ => wrong "too long"
  | fuel + 1, command => do
    match ← readRedirects fuel [] with
    | [] => return command
    | redirects => return .redirected command redirects

def readRedirects : Nat → List Redirect → Reading (List Redirect)
  | 0, _ => wrong "too long"
  | fuel + 1, redirects => do
    match ← peekToken fuel with
    | .redirect channel text =>
      let r ← readRedirect fuel channel text
      readRedirects fuel (redirects ++ [r])
    | _ => return redirects

/-- Read the target of a redirection. -/
def readRedirect : Nat → Option Nat → String → Reading Redirect
  | 0, _, _ => wrong "too long"
  | fuel + 1, channel, text => do
    modify fun s => { s with seen := none }
    match ← takeToken fuel with
    | .word target =>
      if text.startsWith "<<" then
        let (delimiter, protects) := Word.delimiter target
        let body ← takeBody delimiter (text = "<<-")
        if protects then return .mk (channel.getD 0) .here [.text body true]
        let after ← get
        set { rest := body.toList, line := after.line, aliases := after.aliases : Source }
        let pieces ← readPieces fuel .here []
        set after
        return .mk (channel.getD 0) .here pieces
      let incoming := text.startsWith "<"
      let route : Route := match text with
        | ">>" => .append
        | ">&" | "<&" => .copy
        | "<" | "<>" => .read
        | ">|" => .overwrite
        | _ => .write
      return .mk (channel.getD (if incoming then 0 else 1)) route target
    | t => unexpected t false none

/-- Read the rest of a simple command, or a definition of a function. -/
def readSimple : Nat → Nat → List (String × Word) → List Word → List Redirect → Reading Command
  | 0, _, _, _, _ => wrong "too long"
  | fuel + 1, line, assignments, words, redirects => do
    let t ← peekToken fuel
    if ← (if words.isEmpty then replaceAlias t else replaceEager t) then
      return ← readSimple fuel line assignments words redirects
    match t with
    | .word w =>
      modify fun s => { s with seen := none }
      match words, assignment? w with
      | [], some a => readSimple fuel line (assignments ++ [a]) words redirects
      | _, _ => readSimple fuel line assignments (words ++ [w]) redirects
    | .redirect channel text =>
      let r ← readRedirect fuel channel text
      readSimple fuel line assignments words (redirects ++ [r])
    | .operator "(" =>
      match words, assignments, redirects with
      | [w], [], [] =>
        modify fun s => { s with seen := none }
        match ← takeToken fuel with
        | .operator ")" => pure ()
        | t => unexpected t false (some ")")
        match Word.bare? w with
        | some name =>
          if isName name && !specialNames.contains name then
            let _ ← peekAfterLines fuel
            return .define name line (← readCommand fuel)
          else wrong "Bad function name"
        | none => wrong "Bad function name"
      | _, _, _ => return .simple line assignments words redirects
    | _ => return .simple line assignments words redirects

/-- Read a choice from its condition on. -/
def readChoice : Nat → Reading Command
  | 0 => wrong "too long"
  | fuel + 1 => do
    let condition ← readList fuel 0 .nothing
    expectKeyword fuel "then"
    let yes ← readList fuel 0 .nothing
    match ← peekAfterLines fuel with
    | .word [.text "elif" false] =>
      modify fun s => { s with seen := none }
      return .choice condition yes (← readChoice fuel)
    | .word [.text "else" false] =>
      modify fun s => { s with seen := none }
      let no ← readList fuel 0 .nothing
      expectKeyword fuel "fi"
      return .choice condition yes no
    | _ =>
      expectKeyword fuel "fi"
      return .choice condition yes .nothing

def readLoop : Nat → Bool → Reading Command
  | 0, _ => wrong "too long"
  | fuel + 1, wanted => do
    let condition ← readList fuel 0 .nothing
    expectKeyword fuel "do"
    let body ← readList fuel 0 .nothing
    expectKeyword fuel "done"
    return .loop wanted condition body

def readEach : Nat → Reading Command
  | 0 => wrong "too long"
  | fuel + 1 => do
    let name? := match ← takeToken fuel with
      | .word w => (Word.bare? w).filter isName
      | _ => none
    let some name := name? | wrong "Bad for loop variable"
    let words ← match ← peekAfterLines fuel with
      | .word [.text "in" false] => do
        modify fun s => { s with seen := none }
        let words ← readWords fuel []
        match ← takeToken fuel with
        | .operator ";" | .operator "\n" => pure (some words)
        | t => unexpected t false none
      | .operator ";" => do
        modify fun s => { s with seen := none }
        pure none
      | _ => pure none
    expectKeyword fuel "do"
    let body ← readList fuel 0 .nothing
    expectKeyword fuel "done"
    return .each name words body

def readWords : Nat → List Word → Reading (List Word)
  | 0, _ => wrong "too long"
  | fuel + 1, words => do
    match ← peekToken fuel with
    | .word w =>
      modify fun s => { s with seen := none }
      readWords fuel (words ++ [w])
    | _ => return words

def readCases : Nat → Reading Command
  | 0 => wrong "too long"
  | fuel + 1 => do
    match ← takeToken fuel with
    | .word word =>
      expectKeyword fuel "in"
      return .cases word (← readArms fuel [])
    | t => unexpected t false (some "word")

def readArms : Nat → List (List Word × Command) → Reading (List (List Word × Command))
  | 0, _ => wrong "too long"
  | fuel + 1, arms => do
    let drop : Reading Unit := modify fun s => { s with seen := none }
    let t ← peekAfterLines fuel
    match t with
    | .word [.text "esac" false] =>
      drop
      return arms
    | _ =>
      if t matches .operator "(" then drop
      let patterns ← readPatterns fuel []
      let body ← readList fuel 2 .nothing
      let arms := arms ++ [(patterns, body)]
      match ← peekAfterLines fuel with
      | .operator ";;" =>
        drop
        readArms fuel arms
      | .word [.text "esac" false] =>
        drop
        return arms
      | t => unexpected t true (some ";;")

/-- Read the patterns of an arm with the parenthesis that closes them. -/
def readPatterns : Nat → List Word → Reading (List Word)
  | 0, _ => wrong "too long"
  | fuel + 1, patterns => do
    let pattern := match ← takeToken fuel with
      | .word w => w
      | _ => []
    match ← takeToken fuel with
    | .operator "|" => readPatterns fuel (patterns ++ [pattern])
    | .operator ")" => return patterns ++ [pattern]
    | t => unexpected t false (some ")")

end

/-- The fuel for a source. -/
def Source.fuel (s : Source) : Nat :=
  let longest := (s.aliases.map fun (_, text) => text.length).foldr (· + ·) 0 + 1
  32 * (s.rest.length + 2) * longest * longest

/-- Read a line: none at the end of the script. -/
def readLine : Nat → Command → Reading (Option Command)
  | 0, _ => wrong "too long"
  | fuel + 1, before => do
    let deep := (← get).fuel
    match ← peekToken deep with
    | .finish => return match before with
      | .nothing => none
      | command => some command
    | .operator "\n" =>
      modify fun s => { s with seen := none }
      return some before
    | _ =>
      let command ← readChain deep
      let t ← peekToken deep
      let command := if t matches .operator "&" then .background command else command
      let before := match before with
        | .nothing => command
        | b => .sequence b command
      match t with
      | .operator "&" | .operator ";" =>
        modify fun s => { s with seen := none }
        readLine fuel before
      | .operator "\n" | .finish => readLine fuel before
      | t => unexpected t true none

/-- Read the first line of a source. -/
def Source.readLine? (s : Source) : Except Mistake (Option (Command × Source)) := do
  match ← (readLine s.fuel .nothing).run s with
  | (some command, s) => return some (command, s)
  | (none, _) => return none

end Tangent.Shell
