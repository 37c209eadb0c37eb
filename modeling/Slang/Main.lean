import Slang.Command

/-!
# The program

Reads the file that the arguments name and prints the response to them. A run that is cut short is
repeated with twice the rounds; the lines shown before are the first ones of the new run, so only
the others are printed.
-/

namespace Slang.Main

/-- The text of a file, if it can be read and is text. -/
def readSource (path : String) : IO (Option String) := do
  try
    return some (← IO.FS.readFile path)
  catch _ =>
    return none

/-- Prints what a response has beyond the lines that have been shown. -/
def showFrom (shown : Nat) (response : Response) : IO Unit := do
  (response.lines.drop shown).forM IO.println
  (← IO.getStdout).flush
  IO.eprint response.complaint

/-- Answers a request with more and more rounds until the answer is complete. -/
partial def answer (request : Request) (readFile : String → Option String) (rounds shown : Nat) :
    IO UInt32 := do
  let response := request.respond .ansi rounds readFile
  showFrom shown response
  match response.exitCode with
  | some code => return code.toUInt32
  | none => answer request readFile (2 * rounds) response.lines.length

end Slang.Main

def main (arguments : List String) : IO UInt32 := do
  let request := Slang.Request.ofArguments arguments
  let source ← match request with
    | .invoke invocation => Slang.Main.readSource invocation.path
    | _ => pure none
  Slang.Main.answer request (fun _ ↦ source) 1024 0
