import Slang.Eval.Expression

/-!
# Running statements

A `dip` drops block frames down to that of the nearest loop, switch or attempt and sets out;
statement lists stop while it is on its way. A loop or switch takes it in; an attempt does so only
if no loop or switch encloses it. Loops are the one source of endless runs, so each run of a loop
is given a number of rounds, and asking for more ends the run.
-/

namespace Slang

namespace Eval

/-- Runs a statement list in a frame of its own, given the depth outside it. -/
def inBlock (body : Nat → Eval Unit) : Eval Unit := do
  let outside ← depth
  push .block
  body outside

/-- Whether a statement list must stop: its frame is gone, or a `dip` is on its way. -/
def mustStop (outside : Nat) : Eval Bool := do
  let machine ← get
  return machine.scopes.depth ≤ outside || machine.leaving

/-- One round of a loop, and whether a `dip` left the loop. -/
def loopRound (body : Eval Unit) : Eval Bool := do
  let outside ← depth
  push .loop
  body
  truncate outside
  takeLeaving

/-- Tests and runs a loop body in turn, for at most the given number of tests. -/
def repeatWhile (test : Eval Bool) (body : Eval Unit) : Nat → Eval Unit
  | 0 => throw .outOfRounds
  | rounds + 1 => do
    if ← test then
      if ← loopRound body then return ()
      else repeatWhile test body rounds
    else return ()

/-- Drops frames down to what a `dip` leaves, and lets it set out. -/
def leave : Eval Unit := do
  match (← get).scopes.unwind? with
  | some scopes =>
    modifyScopes fun _ ↦ scopes
    setLeaving true
  | none => fail .strayLeave

/-- Runs a body and, if it fails, a handler with the fault's wording in a variable. -/
def attempt (body : Eval Unit) (binding : String) (handler : Eval Unit) : Eval Unit := do
  let outside ← depth
  push .attempt
  match ← settle body with
  | .ok () =>
    truncate outside
    if (← get).scopes.isBreakable then return () else setLeaving false
  | .error (.fault fault) =>
    truncate outside
    setLeaving false
    noteCaught fault
    push .block
    tryScopes (Scopes.declare binding (.text fault.message))
    handler
    truncate outside
  | .error .outOfRounds => throw .outOfRounds

/-- Whether a value equals that of a label. Labels are evaluated up to the first that it equals. -/
def matchesLabel (subject : Value) : List Expr → Eval Bool
  | [] => return false
  | label :: labels => do
    if (← label.eval).equals subject then return true else matchesLabel subject labels

/-- The place of the first arm with a label that the subject equals, or else of the first default
arm. -/
def selectArm (subject : Value) : List (Arm Stmt) → Nat → Option Nat → Eval (Option Nat)
  | [], _, fallback => return fallback
  | arm :: arms, place, fallback => do
    if ← matchesLabel subject arm.labels then return some place
    else
      let default := if arm.isDefault then some place else none
      selectArm subject arms (place + 1) (fallback.or default)

/-- Selects an arm and runs the arms from there on. -/
def switch (subject : Expr) (arms : List (Arm Stmt)) (runFrom : Nat → Eval Unit) : Eval Unit := do
  let outside ← depth
  push .switch
  let value ← subject.eval
  match ← selectArm value arms 0 none with
  | some place => runFrom place
  | none => pure ()
  truncate outside

end Eval

open Eval

mutual

/-- Runs a statement, each loop for at most `rounds` rounds. Only expressions have a value other
than null. -/
def Stmt.run (rounds : Nat) : Stmt → Eval Value
  | .expression value => value.eval
  | .declare name none => do
    tryScopes (Scopes.declare name .null)
    return .null
  | .declare name (some value) => do
    let result ← value.eval
    tryScopes (Scopes.declare name result)
    return .null
  | .block statements => do
    inBlock fun outside ↦ runAll rounds outside statements
    return .null
  | .when condition body rest => do
    if ← condition.test then discard (Stmt.run rounds body) else rest.run rounds
    return .null
  | .loop condition body => do
    repeatWhile condition.test (discard (Stmt.run rounds body)) rounds
    return .null
  | .switch subject arms => do
    Eval.switch subject arms fun place ↦ runArms rounds place arms
    return .null
  | .leave => do
    Eval.leave
    return .null
  | .attempt body binding handler => do
    Eval.attempt (inBlock fun outside ↦ runAll rounds outside body) binding
      (inBlock fun outside ↦ runAll rounds outside handler)
    return .null
  | .throw value => do
    fail (.thrown (← value.eval).display)
  | .print value => do
    Eval.print (← value.eval).display
    return .null

/-- Runs what is left to do when a condition has failed. -/
def Alternative.run (rounds : Nat) : Alternative → Eval Unit
  | .none => return ()
  | .otherwise body => discard (Stmt.run rounds body)
  | .elseWhen condition body rest => do
    if ← condition.test then discard (Stmt.run rounds body) else Alternative.run rounds rest

/-- Runs statements in turn and drops their frame behind the last. If they must stop before, the
frame is left for the construct that the `dip` leaves. -/
def runAll (rounds outside : Nat) : List Stmt → Eval Unit
  | [] => truncate outside
  | statement :: statements => do
    discard (Stmt.run rounds statement)
    if ← mustStop outside then return () else runAll rounds outside statements

/-- Runs arms in turn behind the first `skipped` ones, until a `dip` leaves the switch. -/
def runArms (rounds : Nat) : Nat → List (Arm Stmt) → Eval Unit
  | _, [] => return ()
  | skipped + 1, _ :: arms => runArms rounds skipped arms
  | 0, ⟨_, _, statements⟩ :: arms => do
    if ← runArm rounds statements then return () else runArms rounds 0 arms

/-- Runs the statements of an arm, and says whether a `dip` left the switch. -/
def runArm (rounds : Nat) : List Stmt → Eval Bool
  | [] => return false
  | statement :: statements => do
    discard (Stmt.run rounds statement)
    if ← takeLeaving then return true else runArm rounds statements

end

/-- Runs a whole program in a frame of its own. -/
def runProgram (rounds : Nat) (program : List Stmt) : Eval Unit :=
  inBlock fun outside ↦ runAll rounds outside program

end Slang
