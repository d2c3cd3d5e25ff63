/-!
# The command line

What the arguments of the program ask for. Arguments are read from left to right and the first
one that cannot be used decides; a snippet replaces whatever stood before it, and a file replaces
a snippet but not another file.
-/

namespace ScriptEngine

/-- What to run. -/
inductive Command where
  | file (path : String)
  | snippet (code : String)
  | dialogue
deriving DecidableEq

/-- Why arguments cannot be used. -/
inductive ArgumentFault where
  | missingFile (option : String)
  | missingCode
  | secondFile
  | unknownOption (option : String)
deriving DecidableEq

/-- The text of an argument fault. -/
def ArgumentFault.message : ArgumentFault → String
  | missingFile option => option ++ " requires a file"
  | missingCode => "-e requires a code argument"
  | secondFile => "Only one script file can be specified"
  | unknownOption option => "Unknown option: " ++ option

/-- What a list of arguments comes to. -/
inductive CommandLine where
  | run (command : Command)
  | help
  | refused (fault : ArgumentFault)
deriving DecidableEq

namespace CommandLine

/-- How to use the program. -/
def usage : List String :=
  ["TripleS 0.4.0 - TripleS Interpreter",
    "",
    "Usage: triples [options] [script.sss]",
    "",
    "Options:",
    "  -p, --path <file>   Run a script file",
    "  -e <code>           Evaluate code",
    "  -v, --verbose       Log module loading (RUST_LOG overrides)",
    "  -h, --help          Show this help message",
    "",
    "Examples:",
    "  triples                   Start interactive REPL",
    "  triples index.sss         Run a script file",
    "  triples -p index.sss      Run a script file",
    "  triples -e 'print 1 + 1;' Evaluate code directly"]

/-- The command after a file is named. Only one file can be. -/
def withFile (path : String) : Command → Except ArgumentFault Command
  | .file _ => .error .secondFile
  | _ => .ok (.file path)

/-- Reads arguments that follow those which came to `command`. -/
def readFrom (command : Command) : List String → CommandLine
  | [] => .run command
  | arg :: rest =>
    if arg = "--help" ∨ arg = "-h" then .help
    else if arg = "--verbose" ∨ arg = "-v" then readFrom command rest
    else if arg = "--path" ∨ arg = "-p" then
      match rest with
      | [] => .refused (.missingFile arg)
      | path :: rest =>
        match withFile path command with
        | .ok command => readFrom command rest
        | .error fault => .refused fault
    else if arg = "-e" then
      match rest with
      | [] => .refused .missingCode
      | code :: rest => readFrom (.snippet code) rest
    else if arg.toList.head? = some '-' then .refused (.unknownOption arg)
    else
      match withFile arg command with
      | .ok command => readFrom command rest
      | .error fault => .refused fault

/-- Reads the arguments of the program. Without any, it starts a dialogue. -/
def read (arguments : List String) : CommandLine :=
  readFrom .dialogue arguments

end CommandLine

end ScriptEngine
