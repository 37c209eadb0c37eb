import Slang.Proofs.Refinement

/-!
# Catching and throwing again

A program put into an attempt whose handler throws what it caught prints what the program prints and
ends as the program does, but that every fault comes out as one that was thrown, with the same
wording. This needs every `dip` of the program to be inside a loop body, an arm or the body of an
attempt. Any other `dip` is a fault of the program alone and ends the attempt without one.

Such a program cannot tell whether an attempt encloses it. Around the attempt there are frames that
hold no variables, and those show nothing.
-/

namespace Slang

open Stateful Structured

/-! ## What a `dip` is inside of -/

mutual

/-- Whether every `dip` in a statement is inside a loop body, an arm of a switch or the body of an
attempt. A handler is not inside its own attempt. -/
def Stmt.leavesWithin : Stmt → Bool
  | .leave => false
  | .block statements => allLeaveWithin statements
  | .when _ body rest => Stmt.leavesWithin body && Alternative.leavesWithin rest
  | .attempt _ _ handler => allLeaveWithin handler
  | .expression _ | .declare .. | .loop .. | .switch .. | .throw _ | .print _ => true

def Alternative.leavesWithin : Alternative → Bool
  | .none => true
  | .otherwise body => Stmt.leavesWithin body
  | .elseWhen _ body rest => Stmt.leavesWithin body && Alternative.leavesWithin rest

def allLeaveWithin : List Stmt → Bool
  | [] => true
  | statement :: statements => Stmt.leavesWithin statement && allLeaveWithin statements

end

theorem allLeaveWithin_iff (statements : List Stmt) :
    allLeaveWithin statements = true ↔ ∀ statement ∈ statements, statement.leavesWithin = true := by
  induction statements with
  | nil => simp [allLeaveWithin]
  | cons statement statements ih => simp [allLeaveWithin, ih]

theorem Alternative.leavesWithin_iff (alternative : Alternative) :
    alternative.leavesWithin = true ↔
      ∀ statement ∈ alternative.branches, statement.leavesWithin = true := by
  induction alternative using Alternative.induction with
  | none => simp [leavesWithin, branches]
  | otherwise body => simp [leavesWithin, branches]
  | elseWhen condition body rest ih => simp [leavesWithin, branches, ih]

/-! ## Enclosing attempts that make no difference -/

namespace Reference

variable {rounds : Nat} {first second : Context}

theorem runAll_congr {statements : List Stmt}
    (h : ∀ statement ∈ statements,
      runStmt rounds first statement = runStmt rounds second statement) :
    runAll rounds first statements = runAll rounds second statements := by
  induction statements with
  | nil => rfl
  | cons statement statements ih =>
    obtain ⟨hstatement, hstatements⟩ := List.forall_mem_cons.1 h
    rw [runAll, runAll, hstatement, ih hstatements]

theorem runAlternative_congr {alternative : Alternative}
    (h : ∀ statement ∈ alternative.branches,
      runStmt rounds first statement = runStmt rounds second statement) :
    runAlternative rounds first alternative = runAlternative rounds second alternative := by
  induction alternative using Alternative.induction with
  | none => rfl
  | otherwise body => exact h body (List.mem_singleton_self body)
  | elseWhen condition body rest ih =>
    obtain ⟨hbody, hrest⟩ := List.forall_mem_cons.1 h
    rw [runAlternative, runAlternative, hbody, ih hrest]

theorem Context.inAttempt_congr (h : first = .breakable ↔ second = .breakable) :
    first.inAttempt = second.inAttempt := by
  cases first <;> cases second <;> simp_all [inAttempt]

/-- If each `dip` of a statement is inside something that the statement itself brings along, the
statement only asks whether a loop or switch encloses it, and then only at the end of an attempt. -/
theorem runStmt_congr (h : first = .breakable ↔ second = .breakable) {statement : Stmt}
    (hwithin : statement.leavesWithin = true) :
    runStmt rounds first statement = runStmt rounds second statement := by
  induction statement using Stmt.induction with
  | expression value => rfl
  | declare name value => cases value <;> rfl
  | block statements ih =>
    have hall := (allLeaveWithin_iff statements).1 hwithin
    rw [runStmt, runStmt, runAll_congr fun statement hmem ↦ ih statement hmem (hall statement hmem)]
  | when condition body rest ihbody ihrest =>
    obtain ⟨hbody, hrest⟩ := (Bool.and_eq_true _ _).mp hwithin
    have hbranches := rest.leavesWithin_iff.1 hrest
    have halternative : runAlternative rounds first rest = runAlternative rounds second rest :=
      runAlternative_congr fun statement hmem ↦ ihrest statement hmem (hbranches statement hmem)
    rw [runStmt, runStmt, ihbody hbody, halternative]
  | loop condition body => rfl
  | switch subject arms => rfl
  | leave => cases hwithin
  | attempt body binding handler _ ihhandler =>
    have hall := (allLeaveWithin_iff handler).1 hwithin
    have hhandler : runAll rounds first handler = runAll rounds second handler :=
      runAll_congr fun statement hmem ↦ ihhandler statement hmem (hall statement hmem)
    rw [runStmt, runStmt, Context.inAttempt_congr h, hhandler]
    funext store
    unfold attempt
    simp only [h]
  | throw value => rfl
  | print value => rfl

end Reference

/-! ## The handler that throws again -/

/-- The program in an attempt that throws again what it catches. -/
def rethrowing (binding : String) (program : List Stmt) : List Stmt :=
  [.attempt program binding [.throw (.identifier binding)]]

/-- A fault that was caught and thrown again. -/
def Halt.rethrown : Halt → Halt
  | fault raised => fault (.thrown raised.message)
  | outOfRounds => outOfRounds

namespace Reference

/-- The handler sees the wording of the fault, and throws it. -/
theorem rethrow_apply (rounds : Nat) (context : Context) (binding text : String) (store : Store) :
    under (Function.update noVariables binding (some (.text text)))
        (under noVariables (runAll rounds context [.throw (.identifier binding)])) store =
      (.error (.halt (.fault (.thrown text))), store) := by
  let inside : Store :=
    ⟨noVariables :: Function.update noVariables binding (some (.text text)) :: store.chain,
      store.output, store.caught⟩
  have hlookup : lookup binding inside.chain = some (.text text) := by
    simp [inside, lookup, List.findSome?_cons, noVariables]
  have hread : evaluate (.identifier binding) inside = (.ok (.text text), inside) := by
    rw [evaluate, read, hlookup]
  have hthrow : runStmt rounds context (.throw (.identifier binding)) inside =
      (.error (.halt (.fault (.thrown text))), inside) := by
    rw [runStmt, bind_of_ok hread]
    rfl
  have hrun : runAll rounds context [.throw (.identifier binding)] inside =
      (.error (.halt (.fault (.thrown text))), inside) := by
    rw [runAll, bind_of_error hthrow]
  rw [under, under, hrun]
  rfl

/-- The end of a program as the end of the attempt around it. A `dip` ends there. -/
def rethrown : Except Exit Unit × Store → Except Exit Unit × Store
  | (.error (.halt (.fault fault)), after) =>
    (.error (.halt (.fault (.thrown fault.message))),
      ⟨after.chain, after.output, fault :: after.caught⟩)
  | (.error .leave, after) => (.ok (), after)
  | ending => ending

theorem output_rethrown (ending : Except Exit Unit × Store) :
    (rethrown ending).2.output = ending.2.output := by
  unfold rethrown
  split <;> rfl

theorem outcome_rethrown {ending : Except Exit Unit × Store} {outcome : Except Halt Unit}
    (h : ending.1 = outcome.mapError .halt) :
    (rethrown ending).1 = (outcome.mapError Halt.rethrown).mapError .halt := by
  obtain ⟨exit, after⟩ := ending
  obtain rfl : exit = outcome.mapError .halt := h
  rcases outcome with (fault | _) | _ <;> rfl

theorem runAll_rethrowing (rounds : Nat) (binding : String) {program : List Stmt}
    (hwithin : allLeaveWithin program = true) (store : Store) :
    runAll rounds .none (rethrowing binding program) store =
      rethrown (runProgram rounds program store) := by
  have hbody : runAll rounds .attempt program = runAll rounds .none program := by
    have hall := (allLeaveWithin_iff program).1 hwithin
    exact runAll_congr fun statement hmem ↦ runStmt_congr (by simp) (hall statement hmem)
  have hattempt : runAll rounds .none (rethrowing binding program) =
      attempt .none (runProgram rounds program) binding
        (under noVariables (runAll rounds .none [.throw (.identifier binding)])) := by
    have hcontext : Context.none.inAttempt = .attempt := rfl
    rw [rethrowing, runAll, runAll, runStmt, hcontext, hbody]
    exact bind_pure _
  rw [hattempt, attempt]
  rcases runProgram rounds program store with ⟨(_ | fault | _) | _, after⟩
  · rfl
  · exact rethrow_apply rounds .none binding fault.message _
  · rfl
  · rfl

end Reference

/-- A clean program, in which every `dip` is inside something it can leave, prints the same calls in
an attempt that throws again what it catches. It ends normally there if and only if it does alone,
fails there with what the fault would have said, and needs as many rounds. -/
theorem run_rethrowing {colors : Option Painter} {source : String}
    (hclean : (parse colors source).diagnostics = [])
    (hwithin : allLeaveWithin (parse colors source).body = true) (binding : String) (sink : Sink)
    (rounds : Nat) :
    let alone := runProgram rounds (parse colors source).body (Machine.ofSink sink)
    let caught :=
      runProgram rounds (rethrowing binding (parse colors source).body) (Machine.ofSink sink)
    caught.2.output = alone.2.output ∧
      (caught.1 = .ok () ↔ alone.1 = .ok ()) ∧
      (∀ fault, alone.1 = .error (.fault fault) →
        caught.1 = .error (.fault (.thrown fault.message))) ∧
      (caught.1 = .error .outOfRounds ↔ alone.1 = .error .outOfRounds) := by
  have hplaced := parse_placed hclean
  generalize (parse colors source).body = program at hplaced hwithin
  -- The frame of the list around the attempt holds no variables and stands for no scope.
  have hsimulates : Simulates (Agrees [⟨.block, false⟩] ⟨[], []⟩)
      (Balanced.within .block (Balanced.runAll rounds (rethrowing binding program)))
      (Reference.runAll rounds .none (rethrowing binding program)) := by
    have hattempt : (Stmt.attempt program binding [.throw (.identifier binding)]).Placed :=
      .attempt binding hplaced (by simpa using .throw _)
    refine Agrees.within_simulates (Refinement.runAll_simulates rounds ?_)
    intro statement hmem
    rw [List.mem_singleton.1 hmem]
    exact Refinement.runStmt_refines rounds hattempt Bool.noConfusion
  obtain ⟨hcaught, houtput, -⟩ :=
    Refinement.runProgram_simulates rounds hsimulates rfl (agrees_ofSink sink) rfl
  obtain ⟨halone, houtput', -⟩ :=
    Refinement.runProgram_refines rounds hplaced rfl (agrees_ofSink sink) rfl
  rw [Reference.runAll_rethrowing rounds binding hwithin] at hcaught houtput
  generalize runProgram rounds (rethrowing binding program) (Machine.ofSink sink) = caught at *
  generalize runProgram rounds program (Machine.ofSink sink) = alone at *
  generalize Reference.runProgram rounds program ⟨[], .ofSink sink, []⟩ = ending at *
  have hprinted : caught.2.output = alone.2.output := by
    rw [houtput.eq_of_nil, houtput'.eq_of_nil, Reference.output_rethrown]
  have hends : caught.1 = alone.1.mapError Halt.rethrown :=
    Exit.mapError_halt_injective (hcaught.symm.trans (Reference.outcome_rethrown halone))
  refine ⟨hprinted, ?_⟩
  rw [hends]
  rcases alone.1 with (fault | _) | _ <;> simp [Except.mapError, Halt.rethrown]

/-- A program that prints and then fails at the test of a loop, whose body is a `dip`. -/
def failingTest : String :=
  "alpha 'x'; vibe_check (a) dip;"

/-- The fault comes out of the attempt as a text that was thrown. -/
theorem failingTest_rethrown :
    let caught :=
      runProgram 1 (rethrowing "e" (parse none failingTest).body) (Machine.ofSink .accepting)
    (parse none failingTest).diagnostics = [] ∧
      allLeaveWithin (parse none failingTest).body = true ∧
      caught.1 = .error (.fault (.thrown "Variable a doesn't exist.")) ∧
      caught.2.output.lines = ["x"] := by
  have hclean : (parse none failingTest).diagnostics = [] := by rfl
  have hbody : (parse none failingTest).body =
      [.print (.string "x"), .loop (.identifier "a") .leave] := by
    rfl
  have hwithin : allLeaveWithin (parse none failingTest).body = true := by
    rw [hbody]
    rfl
  have halone : (runProgram 1 (parse none failingTest).body (Machine.ofSink .accepting)).1 =
      .error (.fault (.undefinedVariable "a")) := by
    rw [hbody]
    rfl
  obtain ⟨houtput, -, hfault, -⟩ := run_rethrowing hclean hwithin "e" .accepting 1
  refine ⟨hclean, hwithin, hfault _ halone, ?_⟩
  rw [houtput, hbody]
  rfl

end Slang
