/-! Requests: what the arguments of the command line ask for. Arguments are read from
left to right, and the first one that asks for help, asks for the version or cannot
be meant decides, whatever stands after it. -/
namespace LS8.Console

inductive Request
  | run (traced : Bool) (program : String)
  | help
  | version
  | misuse
  deriving DecidableEq, Repr

/-- One flag, one operand, or something that is neither. -/
inductive Token
  | trace
  | help
  | version
  | operand (word : String)
  | unknown
  deriving DecidableEq, Repr

namespace Token

/-- A letter of a word with a single dash. -/
def ofLetter : Char → Token
  | 'v' => trace
  | 'h' => help
  | 'V' => version
  | _ => unknown

/-- Flags take no value, so a name with an equals sign is unknown like any other. -/
def ofName (name : List Char) : Token :=
  if name = "trace".toList then trace
  else if name = "help".toList then help
  else if name = "version".toList then version
  else unknown

/-- A dash alone is an operand. -/
def ofWord (word : String) : List Token :=
  match word.toList with
  | '-' :: '-' :: name => [ofName name]
  | '-' :: first :: rest => (first :: rest).map ofLetter
  | _ => [operand word]

/-- Two dashes alone are no token, and make operands of all words after them. -/
def ofArguments : List String → List Token
  | [] => []
  | word :: rest =>
    if word = "--" then rest.map operand else ofWord word ++ ofArguments rest

end Token

namespace Request

/-- Decides the tokens that are left after those that were read. -/
def decide (traced : Bool) (program : Option String) : List Token → Request
  | [] =>
    match program with
    | some program => run traced program
    | none => misuse
  | .help :: _ => help
  | .version :: _ => version
  | .unknown :: _ => misuse
  | .trace :: rest => if traced then misuse else decide true program rest
  | .operand word :: rest =>
    if word.isEmpty || program.isSome then misuse else decide traced (some word) rest

def ofArguments (arguments : List String) : Request :=
  decide false none (Token.ofArguments arguments)

end Request

def helpLines : List String := [
  "Runs LS8 programs from the command line",
  "",
  "Usage: ls8 [OPTIONS] <PROGRAM>",
  "",
  "Arguments:",
  "  <PROGRAM>  Program to run, as `.ls8` text",
  "",
  "Options:",
  "  -v, --trace    Logs the machine state before every instruction",
  "  -h, --help     Print help",
  "  -V, --version  Print version"]

def versionLine : String := "ls8-cli 0.1.0"

end LS8.Console
