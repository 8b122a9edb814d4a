import Tangent.Text.Quoted

/-!
# What can go wrong

Causes of failure, as data. An `Inconsistency` says which dimensions do not fit together, a
`Missing` what was looked up in vain, and an `Issue` covers everything else that is wrong with
what was given. Each has one function that words it. The constructors `stated` carry a text as
it is.
-/

namespace Tangent

/-- The two sides of a function. -/
inductive Side
  | input | output
deriving DecidableEq

def Side.name : Side → String
  | input => "input"
  | output => "output"

/-- Whole numbers in brackets, separated by blanks. -/
def listText (list : List Int64) : String :=
  "[" ++ String.intercalate " " (list.map toString) ++ "]"

/-- The half-open range from zero. -/
def rangeText (stop : String) : String :=
  "out of range [0," ++ stop ++ ")"

/-! ## Dimensions -/

/-- Dimensions that do not fit together. Patterns and operations are given by their texts. -/
inductive Inconsistency
  | stated (text : String)
  | negativeSize (nrow ncol : Int64)
  | offsetCount (length : Nat) (ncol want : Int64)
  | firstOffset (offset : Int64)
  | lastOffset (offset : Int64) (rows : Nat)
  | offsetsDecrease (col : Nat)
  | rowOutOfRange (row : Int64) (col : Nat) (nrow : Int64)
  | rowsNotIncreasing (col : Nat)
  | cellOutOfRange (row col nrow ncol : Int64)
  | listTooShort (list : List Int64)
  | listTooShortFor (list : List Int64) (ncol : Int64)
  | nodeCount (pattern : String) (nonzeros given : Nat)
  | valueCount (pattern : String) (nonzeros given : Nat)
  | notUnary (op : String)
  | notBinary (op : String)
  | shapes (op x y : String)
  | freeSymbol (function symbol : String)
  | argumentCount (function : String) (side : Side) (got want : Nat)
  | argumentSize (function : String) (side : Side) (index got want : Nat)
  | seedCount (function : String) (direction : Nat) (side : Side) (got want : Nat)
  | seedPattern (function : String) (direction : Nat) (side : Side) (index : Nat)
      (got want : String)

def Inconsistency.text : Inconsistency → String
  | stated s => s
  | negativeSize nrow ncol => "negative pattern size " ++ toString nrow ++ "x" ++ toString ncol
  | offsetCount length ncol want =>
    "column index of length " ++ toString length ++ " for " ++ toString ncol ++ " columns: want "
      ++ toString want
  | firstOffset offset => "column index starts at " ++ toString offset ++ ": want 0"
  | lastOffset offset rows =>
    "column index ends at " ++ toString offset ++ " but the pattern has " ++ toString rows
      ++ " row indices"
  | offsetsDecrease col => "column index decreases at column " ++ toString col
  | rowOutOfRange row col nrow =>
    "row index " ++ toString row ++ " at column " ++ toString col ++ " "
      ++ rangeText (toString nrow)
  | rowsNotIncreasing col =>
    "row indices of column " ++ toString col ++ " are not strictly increasing"
  | cellOutOfRange row col nrow ncol =>
    "entry (" ++ toString row ++ "," ++ toString col ++ ") out of range for a " ++ toString nrow
      ++ "x" ++ toString ncol ++ " pattern"
  | listTooShort list => "compressed pattern " ++ listText list ++ " too short"
  | listTooShortFor list ncol =>
    "compressed pattern " ++ listText list ++ " too short for " ++ toString ncol ++ " columns"
  | nodeCount pattern nonzeros given =>
    "pattern " ++ pattern ++ " has " ++ toString nonzeros ++ " nonzeros but " ++ toString given
      ++ " nodes given"
  | valueCount pattern nonzeros given =>
    "pattern " ++ pattern ++ " has " ++ toString nonzeros ++ " nonzeros but " ++ toString given
      ++ " values given"
  | notUnary op => "operation " ++ op ++ " is not unary"
  | notBinary op => "operation " ++ op ++ " is not binary"
  | shapes op x y => "cannot apply " ++ op ++ " to matrices of pattern " ++ x ++ " and " ++ y
  | freeSymbol function symbol =>
    "function " ++ function ++ " depends on the free symbol " ++ symbol
  | argumentCount function side got want =>
    "function " ++ function ++ ": got " ++ toString got ++ " " ++ side.name ++ "s but want "
      ++ toString want
  | argumentSize function side index got want =>
    "function " ++ function ++ ": " ++ side.name ++ " " ++ toString index ++ " has "
      ++ toString got ++ " values but want " ++ toString want
  | seedCount function direction side got want =>
    "function " ++ function ++ ": direction " ++ toString direction ++ " has " ++ toString got
      ++ " " ++ side.name ++ " seeds but want " ++ toString want
  | seedPattern function direction side index got want =>
    "function " ++ function ++ ": direction " ++ toString direction ++ ": " ++ side.name
      ++ " seed " ++ toString index ++ " has pattern " ++ got ++ " but want " ++ want

/-! ## Look-ups -/

/-- What was looked up in vain. -/
inductive Missing
  | stated (what text : String)
  | registeredPattern (pattern codeModule : String)
  | registeredConstant (values codeModule : String)
  | declaredPattern (name : String)
  | function (name : String)
  | operation (name : String)

/-- The kind of thing that was looked up. -/
def Missing.what : Missing → String
  | stated what _ => what
  | registeredPattern _ _ | declaredPattern _ => "sparsity pattern"
  | registeredConstant _ _ => "constant"
  | function _ => "function"
  | operation _ => "operation"

def Missing.text : Missing → String
  | stated _ s => s
  | registeredPattern pattern codeModule =>
    "pattern " ++ pattern ++ " not registered in module " ++ codeModule
  | registeredConstant values codeModule =>
    "constant array " ++ values ++ " not registered in module " ++ codeModule
  | declaredPattern name => "pattern " ++ Text.quote name ++ " not declared"
  | function name => "function " ++ name ++ " not defined in program"
  | operation name => "unknown operation " ++ Text.quote name

/-! ## Files -/

/-- What is wrong with a path. -/
inductive Trouble
  | absent | notDirectory | isDirectory | present | refused
  /-- A name or the whole path is too long. -/
  | tooLong
  /-- The path has a character that ends texts. -/
  | invalid
deriving DecidableEq

def Trouble.text : Trouble → String
  | absent => "no such file or directory"
  | notDirectory => "not a directory"
  | isDirectory => "is a directory"
  | present => "file exists"
  | refused => "permission denied"
  | tooLong => "file name too long"
  | invalid => "invalid argument"

/-! ## Everything else -/

/-- What is wrong with a graph, a routine, a module, a program or a command. -/
inductive Issue
  | stated (text : String)
  | notSymbol (function : String) (nonzero input : Nat) (node : String)
  | repeatedSymbol (function symbol : String)
  | sideRange (function : String) (side : Side) (index : Int64) (count : Nat)
  | notDifferentiable (node : String)
  | notInput (function symbol : String)
  | badIdentifier (what name : String)
  | noPattern (what : String)
  | argumentRange (side : Side) (index : Int64) (count : Nat)
  | nonzeroRange (side : Side) (index nonzero : Int64) (count : Nat)
  | slotRange (what : String) (slot count : Int64)
  | elementRange (index : Int64) (count : Nat)
  | negativeRange (what : String) (size : Int64)
  | workRange (what : String) (start stop size : Int64)
  | integerWorkRange (what : String) (start stop size : Int64)
  | cannotApply (op : String)
  | cannotProject (source target : String)
  | notTransposed (target source : String)
  | cannotMultiply (x y z : String) (transposed : Bool)
  | alreadyDefined (function codeModule : String)
  | noFunction (codeModule : String)
  | badRealType (name : String)
  | noDirectory
  | reservedName (name file : String)
  | predefinedPattern (name : String)
  | unknownInstruction (kind : String)
  | noCommand
  | unreadableCommand (line : String)
  | badPath (action path : String) (trouble : Trouble)
  | notPermitted
  | noProgram (path : String)
  | unknownCommand (name parent : String) (suggestions : List String)
  | operandCount (want given : Nat)
  | fewOperands (least given : Nat)
  | badFlag (text : String)
  | unknownFlag (name : String)
  | unknownLetter (letter : Char) (group : String)
  | noFlagValue (flag : String)
  | noLetterValue (letter : Char) (group : String)
  | badFlagValue (value flag reason : String)

def Issue.text : Issue → String
  | stated s => s
  | notSymbol function nonzero input node =>
    "function " ++ function ++ ": nonzero " ++ toString nonzero ++ " of input " ++ toString input
      ++ " is not a symbol: " ++ node
  | repeatedSymbol function symbol =>
    "function " ++ function ++ ": symbol " ++ symbol ++ " appears more than once in the inputs"
  | sideRange function side index count =>
    "function " ++ function ++ ": " ++ side.name ++ " " ++ toString index ++ " "
      ++ rangeText (toString count)
  | notDifferentiable node =>
    "cannot differentiate with respect to " ++ node ++ ": not a symbol"
  | notInput function symbol =>
    "function " ++ function ++ ": symbol " ++ symbol ++ " is not an input"
  | badIdentifier what name => what ++ " " ++ Text.quote name ++ " is not a valid identifier"
  | noPattern what => what ++ " has no sparsity pattern"
  | argumentRange side index count =>
    side.name ++ " " ++ toString index ++ " " ++ rangeText (toString count)
  | nonzeroRange side index nonzero count =>
    "nonzero " ++ toString nonzero ++ " of " ++ side.name ++ " " ++ toString index ++ " "
      ++ rangeText (toString count)
  | slotRange what slot count =>
    what ++ " slot " ++ toString slot ++ " " ++ rangeText (toString count)
  | elementRange index count => "index " ++ toString index ++ " " ++ rangeText (toString count)
  | negativeRange what size => what ++ " has a negative size " ++ toString size
  | workRange what start stop size =>
    what ++ " range [" ++ toString start ++ "," ++ toString stop
      ++ ") out of the work vector of size " ++ toString size
  | integerWorkRange what start stop size =>
    what ++ " range [" ++ toString start ++ "," ++ toString stop
      ++ ") out of the integer work vector of size " ++ toString size
  | cannotApply op => "cannot apply operation " ++ op
  | cannotProject source target =>
    "cannot project a " ++ source ++ " matrix into a " ++ target ++ " matrix"
  | notTransposed target source =>
    "pattern " ++ target ++ " is not the transpose of " ++ source
  | cannotMultiply x y z transposed =>
    "cannot multiply " ++ x ++ " by " ++ y ++ " into " ++ z ++ " (transpose: "
      ++ toString transposed ++ ")"
  | alreadyDefined function codeModule =>
    "function " ++ function ++ " already defined in module " ++ codeModule
  | noFunction codeModule => "module " ++ codeModule ++ " has no function"
  | badRealType name => "real type " ++ Text.quote name ++ " is not a valid C type"
  | noDirectory => "output directory not set"
  | reservedName name file =>
    "invalid module name " ++ Text.quote name ++ ": malformed file path " ++ Text.quote file ++ ": "
      ++ Text.quote name ++ " disallowed as path element component on Windows"
  | predefinedPattern name => "pattern " ++ Text.quote name ++ " is predefined"
  | unknownInstruction kind => "unknown instruction kind " ++ Text.quote kind
  | noCommand => "empty toolchain command"
  | unreadableCommand line =>
    "cannot parse toolchain command " ++ Text.quote line ++ ": invalid command line string"
  | badPath action path trouble => action ++ " " ++ path ++ ": " ++ trouble.text
  | notPermitted => "operation not permitted"
  | noProgram path => "program " ++ path ++ " does not exist"
  | unknownCommand name parent suggestions =>
    "unknown command " ++ Text.quote name ++ " for " ++ Text.quote parent
      ++ (if suggestions.isEmpty then ""
        else "\n\nDid you mean this?\n" ++ String.join (suggestions.map fun s => "\t" ++ s ++ "\n"))
  | fewOperands least given =>
    "requires at least " ++ toString least ++ " arg(s), only received " ++ toString given
  | operandCount want given =>
    "accepts " ++ toString want ++ " arg(s), received " ++ toString given
  | badFlag text => "bad flag syntax: " ++ text
  | unknownFlag name => "unknown flag: --" ++ name
  | unknownLetter letter group =>
    "unknown shorthand flag: " ++ Text.quoteChar letter ++ " in -" ++ group
  | noFlagValue flag => "flag needs an argument: " ++ flag
  | noLetterValue letter group =>
    "flag needs an argument: " ++ Text.quoteChar letter ++ " in -" ++ group
  | badFlagValue value flag reason =>
    "invalid argument " ++ Text.quote value ++ " for " ++ Text.quote flag ++ " flag: " ++ reason

/-! ## Faults -/

/-- A call that no caller should make: an operation that cannot be applied, a wrong number of
operands, a place outside of what is stored, or a collection among keys that are compared. -/
inductive Fault
  | cannotApply (op : String)
  | operandCount (op : String) (want given : Nat)
  | outOfRange
  | collectionKey
deriving DecidableEq

/-- What a fault says; a place out of range and a bad key say nothing. -/
def Fault.text? : Fault → Option String
  | cannotApply op => some ("cannot apply operation " ++ op)
  | operandCount op want given =>
    some ("operation " ++ op ++ " has " ++ toString want ++ " operands but " ++ toString given
      ++ " given")
  | outOfRange | collectionKey => none

end Tangent
