import Slang.Run

/-!
# The command line

`run FILE` runs a file and `check FILE` only reads it; both take `--color`. Arguments are judged
from left to right, and the first one that settles the matter wins.
-/

namespace Slang

inductive Action where
  | run | check
  deriving Repr, DecidableEq

def Action.ofName? : String → Option Action
  | "run" => some run
  | "check" => some check
  | _ => none

/-- What to do with which file. -/
structure Invocation where
  action : Action
  path : String
  colored : Bool
  deriving Repr, DecidableEq

/-- The painter, if colours are asked for. -/
def Invocation.colors (painter : Painter) (invocation : Invocation) : Option Painter :=
  if invocation.colored then some painter else none

/-- What the arguments ask for. -/
inductive Request where
  | version
  | help
  | invoke (invocation : Invocation)
  | misuse
  deriving Repr, DecidableEq

namespace Request

/-- Whether an argument is an option: it has something behind its dash. -/
def isOption (argument : String) : Bool :=
  argument.startsWith "-" && argument != "-"

/-- Whether an argument is a group of one-letter options, the first of which is `letter`. -/
def isLetter (letter argument : String) : Bool :=
  argument.startsWith ("-" ++ letter)

/-- The request for a file given so far, once no options can follow. -/
def ofFiles (action : Action) (colored : Bool) (path : Option String) :
    List String → Request
  | [] =>
    match path with
    | some path => invoke ⟨action, path, colored⟩
    | none => misuse
  | argument :: arguments =>
    if path.isSome || argument.isEmpty then misuse
    else ofFiles action colored (some argument) arguments

/-- The request for an action, from the arguments behind its name. -/
def ofAction (action : Action) (colored : Bool) (path : Option String) : List String → Request
  | [] => ofFiles action colored path []
  | argument :: arguments =>
    if argument = "--" then ofFiles action colored path arguments
    else if argument = "--color" then
      if colored then misuse else ofAction action true path arguments
    else if argument = "--help" || isLetter "h" argument then help
    else if isOption argument then misuse
    else if path.isSome || argument.isEmpty then misuse
    else ofAction action colored (some argument) arguments

/-- A request for help on nothing, on an action, or on help. -/
def ofHelp : List String → Request
  | [] => help
  | [topic] => if topic = "help" || (Action.ofName? topic).isSome then help else misuse
  | _ => misuse

/-- The request that the arguments of the program make. -/
def ofArguments : List String → Request
  | [] => misuse
  | argument :: arguments =>
    match Action.ofName? argument with
    | some action => ofAction action false none arguments
    | none =>
      if argument = "help" then ofHelp arguments
      else if argument = "--help" || isLetter "h" argument then help
      else if argument = "--version" || isLetter "V" argument then version
      else misuse

end Request

/-- What the program answers. -/
structure Response where
  /-- The lines for standard output. -/
  lines : List String
  /-- The text for standard error. -/
  complaint : String
  /-- The exit code, unless a loop ran out of rounds. -/
  exitCode : Option Nat
  deriving Repr, DecidableEq

namespace Response

def success (lines : List String) : Response :=
  ⟨lines, "", some 0⟩

/-- A failure whose complaint is complete. -/
def failure (lines : List String) (complaint : String) : Response :=
  ⟨lines, complaint, some 1⟩

/-- A message behind the word that opens an error. -/
def errorLine (colors : Option Painter) (message : String) : String :=
  Severity.error.label colors ++ " " ++ message ++ "\n"

/-- The response to a run. Reports of problems carry their own labels. -/
def ofRun (colors : Option Painter) : Except RunError Unit × Output → Response
  | (.ok (), output) => success output.lines
  | (.error (.unparsed report), output) => failure output.lines report
  | (.error (.halted (.fault fault)), output) =>
    failure output.lines (errorLine colors fault.message)
  | (.error (.halted .outOfRounds), output) => ⟨output.lines, "", none⟩

def ofCheck : Except String Unit → Response
  | .ok () => success []
  | .error report => failure [] report

/-- The response to an invocation, given the text of its file if that is a readable text. -/
def ofInvocation (painter : Painter) (rounds : Nat) (invocation : Invocation) :
    Option String → Response
  | none =>
    failure [] (errorLine (invocation.colors painter) ("Could not find file " ++ invocation.path))
  | some source =>
    let colors := invocation.colors painter
    match invocation.action with
    | .run => ofRun colors (run rounds colors Sink.accepting source)
    | .check => ofCheck (check colors source)

/-- The lines for standard output as one text. -/
def outputText (response : Response) : String :=
  String.join (response.lines.map (· ++ "\n"))

end Response

/-- How the program is used. -/
def usage : List String :=
  ["Usage: rizz <COMMAND>", "", "Commands:", "  run    Run a rizz script file",
    "  check  Parse a rizz script file and report diagnostics without running it", "",
    "Options:", "  -h, --help     Print help", "  -V, --version  Print version"]

/-- The response to a request, given the texts of files by their paths. -/
def Request.respond (painter : Painter) (rounds : Nat) (readFile : String → Option String) :
    Request → Response
  | version => .success ["rizz 0.1.0"]
  | help => .success usage
  | misuse => ⟨[], String.join (usage.map (· ++ "\n")), some 2⟩
  | invoke invocation => .ofInvocation painter rounds invocation (readFile invocation.path)

end Slang
