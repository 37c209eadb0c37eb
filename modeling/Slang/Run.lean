import Slang.Eval.Statement
import Slang.Parse.Statement

/-!
# Checking and running source texts

Nothing runs if anything was reported while the text was read.
-/

namespace Slang

/-- Why a source text did not run to its end. -/
inductive RunError where
  /-- It has problems, which are rendered here. -/
  | unparsed (report : String)
  | halted (halt : Halt)
  deriving Repr, DecidableEq

/-- Reads a source text, and gives the report if there is one. -/
def check (colors : Option Painter) (source : String) : Except String Unit :=
  match (parse colors source).report with
  | some report => .error report
  | none => .ok ()

/-- Runs a source text on a fresh machine, each loop for at most `rounds` rounds. -/
def run (rounds : Nat) (colors : Option Painter) (sink : Sink) (source : String) :
    Except RunError Unit × Output :=
  let parsed := parse colors source
  match parsed.report with
  | some report => (.error (.unparsed report), .ofSink sink)
  | none =>
    let (outcome, machine) := runProgram rounds parsed.body (Machine.ofSink sink)
    (outcome.mapError .halted, machine.output)

section Reports

variable {colors : Option Painter} {source report : String}

theorem check_of_report (h : (parse colors source).report = some report) :
    check colors source = .error report := by
  unfold check
  rw [h]

/-- A text with a report is not run, so nothing is printed. -/
theorem run_of_report (h : (parse colors source).report = some report) (rounds : Nat)
    (sink : Sink) : run rounds colors sink source = (.error (.unparsed report), .ofSink sink) := by
  unfold run
  dsimp only
  rw [h]

theorem run_of_report_eq_none (h : (parse colors source).report = none) (rounds : Nat)
    (sink : Sink) :
    run rounds colors sink source =
      let ended := runProgram rounds (parse colors source).body (Machine.ofSink sink)
      (ended.1.mapError .halted, ended.2.output) := by
  unfold run
  dsimp only
  rw [h]
  rfl

end Reports

end Slang
