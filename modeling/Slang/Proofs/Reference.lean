import Mathlib.Logic.Function.Basic
import Slang.Proofs.Structured
import Slang.Run

/-!
# A structured reference semantics

Programs without a machine. Variables live in a chain of scopes, which are plain maps from names to
values; there are no frame kinds and nothing marks a pending `dip`. A statement ends normally, by
a `dip` or by failing, and a lexical context is passed down that says what encloses it. Only bodies
and handlers open scopes, and each of them drops its scope whichever way it ends.
-/

namespace Slang.Reference

open Structured

/-- The variables of one body. -/
abbrev Scope := String → Option Value

/-- The scopes around a statement, the innermost first. -/
abbrev Chain := List Scope

structure Store where
  chain : Chain
  output : Output
  /-- The faults that handlers have caught, the latest first. -/
  caught : List Fault

/-- What encloses a statement, as far as a `dip` is concerned. -/
inductive Context where
  | none
  /-- The body of an attempt, but no loop or switch. -/
  | attempt
  /-- A loop body or an arm of a switch. -/
  | breakable
  deriving Repr, DecidableEq

namespace Context

/-- The context of the body of an attempt. -/
def inAttempt : Context → Context
  | breakable => breakable
  | _ => attempt

@[simp] theorem inAttempt_ne_none (context : Context) : context.inAttempt ≠ none := by
  cases context <;> simp [inAttempt]

@[simp] theorem inAttempt_eq_breakable_iff (context : Context) :
    context.inAttempt = breakable ↔ context = breakable := by
  cases context <;> simp [inAttempt]

end Context

/-! ## Variables -/

def noVariables : Scope := fun _ ↦ none

def lookup (name : String) (chain : Chain) : Option Value :=
  chain.findSome? (· name)

/-- Adds a variable to the innermost scope. -/
def declare (name : String) (value : Value) : Chain → Except Fault Chain
  | [] => .error .noFrame
  | scope :: outer =>
    if (scope name).isSome then .error (.alreadyDefined name)
    else .ok (Function.update scope name (some value) :: outer)

/-- Gives a variable another value in the innermost scope that has it. -/
def assign (name : String) (value : Value) : Chain → Except Fault Chain
  | [] => .error (.undefinedVariable name)
  | scope :: outer =>
    if (scope name).isSome then .ok (Function.update scope name (some value) :: outer)
    else (assign name value outer).map (scope :: ·)

/-! ## Steps -/

section

variable {Result : Type}

def fail (fault : Fault) : Structured Store Result :=
  throw (.halt (.fault fault))

def ofExcept : Except Fault Result → Structured Store Result
  | .ok result => return result
  | .error fault => fail fault

def change (step : Chain → Except Fault Chain) : Structured Store Unit := fun store ↦
  match step store.chain with
  | .ok chain => (.ok (), ⟨chain, store.output, store.caught⟩)
  | .error fault => (.error (.halt (.fault fault)), store)

def read (name : String) : Structured Store Value := fun store ↦
  match lookup name store.chain with
  | some value => (.ok value, store)
  | none => (.error (.halt (.fault (.undefinedVariable name))), store)

def print (line : String) : Structured Store Unit := fun store ↦
  let call := store.output.print line
  (match call.1.refusal with
    | some message => .error (.halt (.fault (.output message)))
    | none => .ok (),
    ⟨store.chain, call.2, store.caught⟩)

/-- Runs a body under a scope of its own, which is dropped whichever way the body ends. -/
def under (scope : Scope) (body : Structured Store Result) : Structured Store Result := fun store ↦
  let ending := body ⟨scope :: store.chain, store.output, store.caught⟩
  (ending.1, ⟨ending.2.chain.tail, ending.2.output, ending.2.caught⟩)

end

/-- The value of an expression. Operands are evaluated from left to right, and what was assigned
before a failure stays assigned. -/
def evaluate : Expr → Structured Store Value
  | .number value => return .number value
  | .string contents => return .text contents
  | .identifier name => read name
  | .unary op operand => do
    ofExcept (op.apply (← evaluate operand))
  | .binary op left right => do
    let first ← evaluate left
    let second ← evaluate right
    ofExcept (op.apply first second)
  | .choice condition whenTrue whenFalse => do
    if (← evaluate condition).isTruthy then evaluate whenTrue else evaluate whenFalse
  | .call callee _ => evaluate callee
  | .assign (.identifier name) value => do
    let result ← evaluate value
    change (assign name result)
    return result
  | .assign _ _ => fail .notAVariable
  | .broken => fail .brokenProgram

def test (condition : Expr) : Structured Store Bool := do
  return (← evaluate condition).isTruthy

def matchesLabel (subject : Value) : List Expr → Structured Store Bool
  | [] => return false
  | label :: labels => do
    if (← evaluate label).equals subject then return true else matchesLabel subject labels

/-- The place of the first arm with a label that the subject equals. -/
def matchingArm (subject : Value) : List (Arm Stmt) → Structured Store (Option Nat)
  | [] => return none
  | arm :: arms => do
    if ← matchesLabel subject arm.labels then return some 0
    else return (← matchingArm subject arms).map (· + 1)

/-- The place of the arm that a switch selects: the first that matches, or else the default. -/
def select (subject : Expr) (arms : List (Arm Stmt)) : Structured Store (Option Nat) := do
  let value ← evaluate subject
  return (← matchingArm value arms).or (arms.findIdx? Arm.isDefault)

/-- A `dip` needs something to leave. -/
def leave : Context → Structured Store Unit
  | .none => fail .strayLeave
  | _ => throw .leave

/-- Runs a body and, if it fails, a handler with the fault's wording in a variable. A `dip` out of
the body ends there unless a loop or switch encloses the attempt. -/
def attempt (context : Context) (body : Structured Store Unit) (binding : String)
    (handler : Structured Store Unit) : Structured Store Unit := fun store ↦
  match body store with
  | (.ok (), after) => (.ok (), after)
  | (.error .leave, after) =>
    if context = .breakable then (.error .leave, after) else (.ok (), after)
  | (.error (.halt .outOfRounds), after) => (.error (.halt .outOfRounds), after)
  | (.error (.halt (.fault fault)), after) =>
    under (Function.update noVariables binding (some (.text fault.message))) handler
      ⟨after.chain, after.output, fault :: after.caught⟩

/-! ## Statements -/

mutual

def runStmt (rounds : Nat) (context : Context) : Stmt → Structured Store Unit
  | .expression value => discard (evaluate value)
  | .declare name none => change (declare name .null)
  | .declare name (some value) => do
    change (declare name (← evaluate value))
  | .block statements => under noVariables (runAll rounds context statements)
  | .when condition body rest => do
    if ← test condition then runStmt rounds context body else runAlternative rounds context rest
  | .loop condition body =>
    repeatWhile (test condition) (runStmt rounds .breakable body) rounds
  | .switch subject arms => discard (stopping do
    let selected ← select subject arms
    selected.elim (return ()) fun place ↦ runArms rounds place arms)
  | .leave => leave context
  | .attempt body binding handler =>
    attempt context (under noVariables (runAll rounds context.inAttempt body)) binding
      (under noVariables (runAll rounds context handler))
  | .throw value => do
    fail (.thrown (← evaluate value).display)
  | .print value => do
    print (← evaluate value).display

def runAlternative (rounds : Nat) (context : Context) : Alternative → Structured Store Unit
  | .none => return ()
  | .otherwise body => runStmt rounds context body
  | .elseWhen condition body rest => do
    if ← test condition then runStmt rounds context body else runAlternative rounds context rest

def runAll (rounds : Nat) (context : Context) : List Stmt → Structured Store Unit
  | [] => return ()
  | statement :: statements => do
    runStmt rounds context statement
    runAll rounds context statements

/-- Runs arms in turn behind the first `skipped` ones. -/
def runArms (rounds : Nat) : Nat → List (Arm Stmt) → Structured Store Unit
  | _, [] => return ()
  | skipped + 1, _ :: arms => runArms rounds skipped arms
  | 0, ⟨_, _, statements⟩ :: arms => do
    runAll rounds .breakable statements
    runArms rounds 0 arms

end

def runProgram (rounds : Nat) (program : List Stmt) : Structured Store Unit :=
  under noVariables (runAll rounds .none program)

/-- The outcome of a program by how it ends. A program never ends by a `dip`, which would have to
leave something. -/
def outcome : Except Exit Unit → Except RunError Unit
  | .ok () | .error .leave => .ok ()
  | .error (.halt reason) => .error (.halted reason)

/-- Runs a source text, each loop for at most `rounds` rounds. -/
def run (rounds : Nat) (colors : Option Painter) (sink : Sink) (source : String) :
    Except RunError Unit × Output :=
  let parsed := parse colors source
  match parsed.report with
  | some report => (.error (.unparsed report), .ofSink sink)
  | none =>
    let (ending, store) := runProgram rounds parsed.body ⟨[], .ofSink sink, []⟩
    (outcome ending, store.output)

end Slang.Reference
