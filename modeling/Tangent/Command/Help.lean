import Tangent.Command.Flag

/-!
# Help
-/

namespace Tangent.Command

/-- The name of the program. -/
def programName : String := "sxc"

/-- What a flag is for; the value of `--help` depends on the command. -/
def Flag.usage (command : String) : Flag → String
  | verbose => "log debug records"
  | config => "YAML file with the code generator options"
  | name => "module name (default: the program file name)"
  | out => "output directory (default: the dir option of the configuration)"
  | function => "functions of the program to generate (default: all)"
  | toolchain => "command invoking the C compiler (default \"gcc -O2 -fPIC\")"
  | help => "help for " ++ command

/-- What kind of value a flag takes. -/
def Flag.valueName : Flag → String
  | verbose | help => ""
  | function => " strings"
  | _ => " string"

/-- The left column of the description of a flag. -/
def Flag.synopsis (f : Flag) : String :=
  (if f.letter?.isSome then "  " else "      ") ++ f.title ++ f.valueName

/-- A text filled up with blanks. -/
def padded (width : Nat) (s : String) : String :=
  s ++ String.ofList (List.replicate (width - s.length) ' ')

/-- The descriptions of flags, in columns. -/
def flagLines (command : String) (flags : List Flag) : List String :=
  let width := flags.foldl (fun w f => max w f.synopsis.length) 0
  flags.map fun f => padded width f.synopsis ++ "   " ++ f.usage command

def Verb.summary : Verb → String
  | ops => "List the atomic operations"
  | generate => "Generate the C code of a program"
  | compile => "Generate the C code of a program and build a dynamic library"

/-- The operands of a command. -/
def Verb.synopsis (v : Verb) : String :=
  v.name ++ if v = ops then "" else " <program.yaml>"

def Verb.help (v : Verb) : String :=
  String.join ([v.summary, "", "Usage:", "  " ++ programName ++ " " ++ v.synopsis ++ " [flags]",
    "", "Flags:"] ++ flagLines v.name v.ownFlags ++ ["", "Global Flags:"]
    ++ flagLines v.name globalFlags |>.map (· ++ "\n"))

/-- The help of the program. -/
def overview : String :=
  let commands := [("compile", Verb.compile.summary),
    ("completion", "Generate the autocompletion script for the specified shell"),
    ("generate", Verb.generate.summary), ("help", "Help about any command"),
    ("ops", Verb.ops.summary)]
  String.join (["Generate C code from scheduled scalar programs", "", "Usage:",
    "  " ++ programName ++ " [command]", "", "Available Commands:"]
    ++ commands.map (fun (name, summary) => "  " ++ padded 11 name ++ " " ++ summary)
    ++ ["", "Flags:"] ++ flagLines programName [.config, .help, .name, .verbose]
    ++ ["", "Use \"" ++ programName ++ " [command] --help\" for more information about a command."]
    |>.map (· ++ "\n"))

end Tangent.Command
