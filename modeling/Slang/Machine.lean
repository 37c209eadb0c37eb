import Slang.Scopes

/-!
# The state of a running program

A machine holds the scopes, whether a `dip` is on its way to the construct it leaves, what was
printed, and the faults that handlers have caught. Computations on it end in a value, a fault, or
for want of loop rounds; whichever it is, the machine is kept.
-/

namespace Slang

/-- A line handed to a sink, and why the sink refused it if it did. -/
structure PrintCall where
  line : String
  refusal : Option String
  deriving Repr, DecidableEq

/-- Where printed lines go: given the calls made before, the latest first, and a line, it accepts
the line or refuses it with a message. -/
abbrev Sink := List PrintCall → String → Option String

namespace Sink

/-- Accepts every line. -/
def accepting : Sink := fun _ _ ↦ none

/-- Refuses the calls, counted from zero, that satisfy a condition. -/
def refusing (refused : Nat → Bool) (message : String) : Sink := fun calls _ ↦
  if refused calls.length then some message else none

end Sink

/-- A sink and the calls made to it, the latest first. -/
structure Output where
  sink : Sink
  calls : List PrintCall

namespace Output

def ofSink (sink : Sink) : Output :=
  ⟨sink, []⟩

def print (line : String) (output : Output) : PrintCall × Output :=
  let call : PrintCall := ⟨line, output.sink output.calls line⟩
  (call, ⟨output.sink, call :: output.calls⟩)

/-- The accepted lines in the order in which they were printed. -/
def lines (output : Output) : List String :=
  (output.calls.filter (·.refusal.isNone)).reverse.map PrintCall.line

theorem lines_print (line : String) (output : Output) :
    (output.print line).2.lines =
      output.lines ++ if (output.print line).1.refusal.isNone then [line] else [] := by
  simp only [lines, print, List.filter_cons]
  split <;> simp_all

end Output

structure Machine where
  scopes : Scopes
  /-- Whether a `dip` is on its way to the construct it leaves. -/
  leaving : Bool
  output : Output
  /-- The faults that handlers have caught, the latest first. -/
  caught : List Fault

namespace Machine

def ofSink (sink : Sink) : Machine :=
  ⟨.initial, false, .ofSink sink, []⟩

end Machine

/-- Why a computation has no value. -/
inductive Halt where
  | fault (fault : Fault)
  /-- A loop had more rounds than it was given. -/
  | outOfRounds
  deriving Repr, DecidableEq

abbrev Eval := ExceptT Halt (StateM Machine)

namespace Eval

def fail {Result : Type} (fault : Fault) : Eval Result :=
  throw (.fault fault)

def depth : Eval Nat := do
  return (← get).scopes.depth

def modifyScopes (change : Scopes → Scopes) : Eval Unit :=
  modify fun machine ↦ ⟨change machine.scopes, machine.leaving, machine.output, machine.caught⟩

/-- Changes the scopes, or fails and leaves them as they are. -/
def tryScopes (change : Scopes → Except Fault Scopes) : Eval Unit := do
  match change (← get).scopes with
  | .ok scopes => modifyScopes fun _ ↦ scopes
  | .error fault => fail fault

def push (kind : FrameKind) : Eval Unit :=
  modifyScopes (Scopes.push kind)

def truncate (depth : Nat) : Eval Unit :=
  modifyScopes (Scopes.truncate depth)

def setLeaving (leaving : Bool) : Eval Unit :=
  modify fun machine ↦ ⟨machine.scopes, leaving, machine.output, machine.caught⟩

/-- Whether a `dip` is on its way, which then has arrived. -/
def takeLeaving : Eval Bool := do
  let leaving := (← get).leaving
  setLeaving false
  return leaving

/-- Prints a line, and fails if it is refused. -/
def print (line : String) : Eval Unit := do
  let call ← modifyGet fun machine ↦
    let (call, output) := machine.output.print line
    (call, ⟨machine.scopes, machine.leaving, output, machine.caught⟩)
  match call.refusal with
  | some message => fail (.output message)
  | none => return ()

def noteCaught (fault : Fault) : Eval Unit :=
  modify fun machine ↦
    ⟨machine.scopes, machine.leaving, machine.output, fault :: machine.caught⟩

/-- Runs a computation and gives its outcome as a value. -/
def settle {Result : Type} (computation : Eval Result) : Eval (Except Halt Result) :=
  fun machine ↦
    let (outcome, after) := computation machine
    (.ok outcome, after)

end Eval

end Slang
