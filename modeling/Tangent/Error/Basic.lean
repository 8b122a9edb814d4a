import Tangent.Error.Cause

/-!
# Errors

An `Error` is a cause, possibly within a context that is written in front of it, possibly one of
several that are reported together. `Error.message` writes it out, and the predicates
`isInconsistency`, `isMissing` and `toolchain?` look for a cause anywhere inside.
-/

namespace Tangent

inductive Error
  | inconsistent (cause : Inconsistency)
  | missing (cause : Missing)
  | issue (cause : Issue)
  /-- The toolchain failed; without a cause, its exit status is the cause. -/
  | toolchain (command : List String) (status : Int) (cause : Option String)
  /-- Something that never happens. -/
  | internal (text : String)
  /-- A document that cannot be read as what it should hold. -/
  | undecodable (what : String)
  | fault (cause : Fault)
  | within (context : String) (error : Error)
  | several (errors : List Error)

namespace Error

/-- The text that a failed command leaves after its exit status. -/
def commandText (command : List String) (status : Int) (cause : Option String) : String :=
  "command " ++ Text.quoteAll command ++ ": "
    ++ cause.getD ("exit status " ++ toString status)

def internalNotice : String :=
  "sx internal error. This is a bug in sx. Please report it. Error:\n"

mutual

/-- The text of an error. Errors reported together are separated by semicolons. -/
def message : Error → String
  | inconsistent cause => "inconsistent dimensions: " ++ cause.text
  | missing cause => cause.what ++ " not found: " ++ cause.text
  | issue cause => cause.text
  | toolchain command status cause =>
    "compilation failed with exit status " ++ toString status ++ ": "
      ++ commandText command status cause
  | internal text => internalNotice ++ text
  | undecodable what => "cannot decode " ++ what
  | fault cause => cause.text?.getD "out of range"
  | within context error => context ++ error.message
  | several errors => String.intercalate "; " (messages errors)

/-- The texts of several errors. -/
def messages : List Error → List String
  | [] => []
  | e :: es => e.message :: messages es

end

/-- The text of the error that this one wraps, if it wraps one. -/
def wrapped? : Error → Option String
  | inconsistent cause => some cause.text
  | missing cause => some cause.text
  | toolchain command status cause => some (commandText command status cause)
  | within _ error => some error.message
  | _ => none

mutual

/-- The errors inside an error that stand neither within a context nor for several others. -/
def causes : Error → List Error
  | within _ error => error.causes
  | several errors => causesOfAll errors
  | error => [error]

/-- The causes of several errors. -/
def causesOfAll : List Error → List Error
  | [] => []
  | e :: es => e.causes ++ causesOfAll es

end

def isInconsistency (e : Error) : Bool :=
  e.causes.any fun
    | inconsistent _ => true
    | _ => false

def isMissing (e : Error) : Bool :=
  e.causes.any fun
    | missing _ => true
    | _ => false

def isUndecodable (e : Error) : Bool :=
  e.causes.any fun
    | undecodable _ => true
    | _ => false

/-- The fault behind an error that is one. -/
def fault? : Error → Option Fault
  | fault cause => some cause
  | _ => none

/-- The command and the exit status of the first failed toolchain. -/
def toolchain? (e : Error) : Option (List String × Int) :=
  e.causes.findSome? fun
    | toolchain command status _ => some (command, status)
    | _ => none

/-- The given errors as one: none for no error. -/
def combine? : List Error → Option Error
  | [] => none
  | [e] => some e
  | errors => some (several errors)

end Error

/-- Results that may be errors. -/
abbrev Result := Except Error

/-- Stop with a fault. -/
def Result.fault {α : Type} (cause : Fault) : Result α :=
  .error (.fault cause)

/-- Stop with an inconsistency. -/
def Result.inconsistent {α : Type} (cause : Inconsistency) : Result α :=
  .error (.inconsistent cause)

/-- Stop with an issue. -/
def Result.issue {α : Type} (cause : Issue) : Result α :=
  .error (.issue cause)

/-- Write a context in front of an error. A fault has none. -/
def Result.within {α : Type} (context : String) : Result α → Result α
  | .ok a => .ok a
  | .error (.fault cause) => .error (.fault cause)
  | .error e => .error (.within context e)

end Tangent
