import Slang.Proofs.CleanParse
import Slang.Proofs.Progress
import Slang.Proofs.Representation
import Slang.Proofs.Unwinding

/-!
# Runs refine the reference semantics

A balanced run keeps to the layout it starts with, so a balanced run and a run of the reference
semantics simulate each other, one construct at a time. A declaration needs an innermost frame that
holds variables, and has one wherever the parser lets a declaration stand. A `dip` that reaches the
end of a program would have had to find a frame to stop at, and outside a program there is none.
With that, every source text runs as the reference semantics says.
-/

namespace Slang

open Stateful Structured

namespace Agrees

open Slang.Balanced (ofEval within)

variable {layout : Layout} {past : Past}

/-! ## Expressions -/

theorem evaluate_simulates (expr : Expr) :
    Simulates (Agrees layout past) (ofEval expr.eval) (Reference.evaluate expr) := by
  fun_induction Expr.eval with
  | case1 value => exact .pure _
  | case2 contents => exact .pure _
  | case3 name => exact lookup_simulates name
  | case4 op operand ih =>
    rw [ofEval_bind, Reference.evaluate]
    exact ih.bind fun value ↦ ofExcept_simulates _
  | case5 op left right ihleft ihright =>
    rw [ofEval_bind, Reference.evaluate]
    refine ihleft.bind fun first ↦ ?_
    rw [ofEval_bind]
    exact ihright.bind fun second ↦ ofExcept_simulates _
  | case6 condition whenTrue whenFalse ihcondition ihtrue ihfalse =>
    rw [ofEval_bind, Reference.evaluate]
    refine ihcondition.bind fun value ↦ ?_
    split
    · exact ihtrue
    · exact ihfalse
  | case7 callee arguments ih =>
    rw [Reference.evaluate]
    exact ih
  | case8 name value ih =>
    rw [ofEval_bind, Reference.evaluate]
    refine ih.bind fun result ↦ ?_
    rw [ofEval_bind]
    refine (change_simulates fun frames chain hshown ↦ ?_).bind fun _ ↦ .pure _
    exact hshown.assign_matches name result
  | case9 target value hvariable =>
    rw [Reference.evaluate]
    · exact fail_simulates _
    · exact hvariable
  | case10 => exact fail_simulates _

theorem test_simulates (condition : Expr) :
    Simulates (Agrees layout past) (ofEval condition.test) (Reference.test condition) := by
  rw [Expr.test, ofEval_bind]
  exact (evaluate_simulates condition).bind fun _ ↦ .pure _

theorem matchesLabel_simulates (subject : Value) (labels : List Expr) :
    Simulates (Agrees layout past) (ofEval (Eval.matchesLabel subject labels))
      (Reference.matchesLabel subject labels) := by
  induction labels with
  | nil => exact .pure _
  | cons label labels ih =>
    rw [Eval.matchesLabel, ofEval_bind]
    refine (evaluate_simulates label).bind fun value ↦ ?_
    split
    · exact .pure _
    · exact ih

/-- The search that carries its place and a default along finds the arm that two searches find, one
for a match and one for the default. -/
theorem selectArm_simulates (subject : Value) (arms : List (Arm Stmt)) (place : Nat)
    (fallback : Option Nat) :
    Simulates (Agrees layout past) (ofEval (Eval.selectArm subject arms place fallback)) (do
      let matched ← Reference.matchingArm subject arms
      return (matched.map (· + place)).or
        (fallback.or ((arms.findIdx? Arm.isDefault).map (· + place)))) := by
  induction arms generalizing place fallback with
  | nil =>
    simp only [Eval.selectArm, Reference.matchingArm, pure_bind, List.findIdx?_nil,
      Option.map_none, Option.none_or, Option.or_none]
    exact .pure fallback
  | cons arm arms ih =>
    rw [Eval.selectArm, ofEval_bind, Reference.matchingArm, bind_assoc]
    refine (matchesLabel_simulates subject arm.labels).bind fun found ↦ ?_
    cases found with
    | true =>
      simp only [if_true, pure_bind, Option.map_some, Nat.zero_add, Option.some_or]
      exact .pure (some place)
    | false =>
      have hplace (offset : Nat) : offset + 1 + place = offset + (place + 1) := by omega
      have hlater := ih (place + 1) (fallback.or (if arm.isDefault then some place else none))
      simp only [Bool.false_eq_true, if_false, bind_assoc, pure_bind]
      convert hlater using 3 with matched
      rw [List.findIdx?_cons, Option.or_assoc]
      cases arm.isDefault <;> simp [Function.comp_def, hplace]

theorem select_simulates (subject : Expr) (arms : List (Arm Stmt)) :
    Simulates (Agrees layout past) (ofEval (Balanced.select subject arms))
      (Reference.select subject arms) := by
  rw [Balanced.select, ofEval_bind]
  refine (evaluate_simulates subject).bind fun value ↦ ?_
  simpa using selectArm_simulates value arms 0 none

/-! ## Control flow -/

theorem leave_simulates :
    Simulates (Agrees layout past) Balanced.leave (Reference.leave layout.context) := by
  intro machine store hagrees
  have htarget := hagrees.shown.hasTarget_iff
  rw [Balanced.leave]
  cases hcontext : layout.context with
  | none =>
    have hnone : machine.scopes.unwind? = none :=
      Frames.unwind?_of_not_hasTarget (by rw [htarget, hcontext]; simp)
    rw [hnone]
    exact ⟨rfl, hagrees⟩
  | attempt =>
    have hsome := Frames.unwind?_of_hasTarget (htarget.2 (by simp [hcontext]))
    rw [hsome]
    exact ⟨rfl, hagrees⟩
  | breakable =>
    have hsome := Frames.unwind?_of_hasTarget (htarget.2 (by simp [hcontext]))
    rw [hsome]
    exact ⟨rfl, hagrees⟩

/-- A scope that holds one variable is an empty scope in which it has just been declared. -/
theorem under_update (name : String) (value : Value) (body : Structured Reference.Store Unit) :
    Reference.under (Function.update Reference.noVariables name (some value)) body =
      Reference.under Reference.noVariables (do
        Reference.change (Reference.declare name value)
        body) := by
  funext store
  have hdeclare : Reference.change (Reference.declare name value)
      ⟨Reference.noVariables :: store.chain, store.output, store.caught⟩ =
      (.ok (), ⟨Function.update Reference.noVariables name (some value) :: store.chain,
        store.output, store.caught⟩) := rfl
  rw [Reference.under, Reference.under, bind_of_ok hdeclare]

theorem attempt_simulates {body handler : Structured Machine Unit}
    {body' handler' : Structured Reference.Store Unit} (binding : String)
    (hbody : Simulates (Agrees (⟨.attempt, false⟩ :: layout) past) body body')
    (hhandler : Simulates (Agrees (⟨.block, true⟩ :: layout) past) handler handler') :
    Simulates (Agrees layout past) (Balanced.attempt body binding handler)
      (Reference.attempt layout.context body' binding handler') := by
  intro machine store hagrees
  obtain ⟨hending, hafter⟩ := within_simulates hbody machine store hagrees
  unfold Balanced.attempt Reference.attempt
  generalize within .attempt body machine = first at hending hafter ⊢
  generalize body' store = first' at hending hafter ⊢
  obtain ⟨ending, after⟩ := first
  obtain ⟨ending', after'⟩ := first'
  obtain rfl : ending = ending' := hending
  rcases ending with (_ | fault | _) | _
  · have hbreakable : after.scopes.isBreakable = true ↔ layout.context = .breakable :=
      hafter.shown.isBreakable_iff
    by_cases hcontext : layout.context = .breakable
    · simp only [hbreakable.2 hcontext, hcontext, if_true]
      exact ⟨trivial, hafter⟩
    · simp only [hbreakable, hcontext, if_false]
      exact ⟨trivial, hafter⟩
  · have hrescue : Simulates (Agrees (⟨.block, true⟩ :: layout) past)
        (ofEval (Eval.tryScopes (Scopes.declare binding (.text fault.message))) >>= fun _ ↦ handler)
        (Reference.change (Reference.declare binding (.text fault.message)) >>= fun _ ↦
          handler') :=
      (change_simulates fun _ _ hshown ↦ hshown.declare_matches _ _).bind fun _ ↦ hhandler
    have hnoted : Agrees layout past
        ⟨after.scopes, after.leaving, after.output, fault :: after.caught⟩
        ⟨after'.chain, after'.output, fault :: after'.caught⟩ :=
      ⟨hafter.shown, hafter.output, congrArg (fault :: ·) hafter.caught⟩
    simp only [under_update]
    exact within_simulates_under hrescue _ _ hnoted
  · exact ⟨rfl, hafter⟩
  · exact ⟨rfl, hafter⟩

end Agrees

/-! ## Statements -/

/-- On frames with this layout, a statement runs as the reference semantics says for the layout's
context. -/
def Stmt.Refines (rounds : Nat) (layout : Layout) (past : Past) (statement : Stmt) : Prop :=
  Simulates (Agrees layout past) (discard (Balanced.runStmt rounds statement))
    (Reference.runStmt rounds layout.context statement)

namespace Refinement

open Agrees

variable (rounds : Nat) {layout : Layout} {past : Past}

theorem discard_bind {Result : Type} (first : Structured Machine Result)
    (next : Result → Structured Machine Value) :
    discard (first >>= next) = first >>= fun result ↦ discard (next result) := by
  simp only [discard_eq_bind, bind_assoc]

theorem discard_null (computation : Structured Machine Unit) :
    discard (do computation; return Value.null) = computation := by
  rw [discard_bind]
  exact bind_pure computation

theorem discard_ofEval_null (computation : Eval Unit) :
    discard (Balanced.ofEval do computation; return Value.null) = Balanced.ofEval computation := by
  rw [ofEval_bind]
  exact discard_null (Balanced.ofEval computation)

theorem runAll_simulates {statements : List Stmt}
    (h : ∀ statement ∈ statements, statement.Refines rounds layout past) :
    Simulates (Agrees layout past) (Balanced.runAll rounds statements)
      (Reference.runAll rounds layout.context statements) := by
  induction statements with
  | nil => exact .pure _
  | cons statement statements ih =>
    rw [Balanced.runAll, Reference.runAll]
    refine (h statement (List.mem_cons_self ..)).bind fun _ ↦ ?_
    exact ih fun later hmem ↦ h later (List.mem_cons_of_mem _ hmem)

theorem body_simulates {statements : List Stmt}
    (h : ∀ statement ∈ statements, statement.Refines rounds (⟨.block, true⟩ :: layout) past) :
    Simulates (Agrees layout past) (Balanced.within .block (Balanced.runAll rounds statements))
      (Reference.under Reference.noVariables
        (Reference.runAll rounds layout.context statements)) :=
  within_simulates_under (runAll_simulates rounds h)

theorem runArms_simulates {arms : List (Arm Stmt)} (hcontext : layout.context = .breakable)
    (h : ∀ arm ∈ arms, ∀ statement ∈ arm.statements, statement.Refines rounds layout past)
    (skipped : Nat) :
    Simulates (Agrees layout past) (Balanced.runArms rounds skipped arms)
      (Reference.runArms rounds skipped arms) := by
  induction arms generalizing skipped with
  | nil =>
    rw [Balanced.runArms, Reference.runArms]
    exact .pure _
  | cons arm arms ih =>
    have hlater := ih fun later hmem ↦ h later (List.mem_cons_of_mem _ hmem)
    cases skipped with
    | succ skipped =>
      rw [Balanced.runArms, Reference.runArms]
      exact hlater skipped
    | zero =>
      have harm := runAll_simulates rounds (h arm (List.mem_cons_self ..))
      rw [hcontext] at harm
      rw [Balanced.runArms, Reference.runArms]
      exact harm.bind fun _ ↦ hlater 0

theorem runAlternative_simulates {alternative : Alternative}
    (h : ∀ statement ∈ alternative.branches, statement.Refines rounds layout past) :
    Simulates (Agrees layout past) (Balanced.runAlternative rounds alternative)
      (Reference.runAlternative rounds layout.context alternative) := by
  induction alternative using Alternative.induction with
  | none =>
    rw [Balanced.runAlternative, Reference.runAlternative]
    exact .pure _
  | otherwise body =>
    rw [Balanced.runAlternative, Reference.runAlternative]
    exact h body (List.mem_cons_self ..)
  | elseWhen condition body rest ih =>
    rw [Balanced.runAlternative, Reference.runAlternative]
    refine (test_simulates condition).bind fun holds ↦ ?_
    split
    · exact h body (List.mem_cons_self ..)
    · exact ih fun later hmem ↦ h later (List.mem_cons_of_mem _ hmem)

/-- Every placed statement runs as the reference semantics says, a declaration on frames of which
the innermost holds variables. -/
theorem runStmt_refines {statement : Stmt} (hplaced : statement.Placed) {layout : Layout}
    (hscope : statement.isDeclaration = true → ∃ kind outer, layout = ⟨kind, true⟩ :: outer) :
    statement.Refines rounds layout past := by
  induction hplaced generalizing layout with
  | expression value =>
    rw [Stmt.Refines, Balanced.runStmt, Reference.runStmt]
    exact (evaluate_simulates value).discard
  | declare name value =>
    -- The machine declares in its innermost frame, whatever construct that frame belongs to.
    obtain ⟨kind, outer, rfl⟩ := hscope rfl
    have hdeclare (result : Value) : Simulates (Agrees (⟨kind, true⟩ :: outer) past)
        (Balanced.ofEval (Eval.tryScopes (Scopes.declare name result)))
        (Reference.change (Reference.declare name result)) :=
      change_simulates fun _ _ hshown ↦ hshown.declare_matches name result
    cases value with
    | none =>
      rw [Stmt.Refines, Balanced.runStmt, Reference.runStmt, discard_ofEval_null]
      exact hdeclare .null
    | some value =>
      rw [Stmt.Refines, Balanced.runStmt, Reference.runStmt, ofEval_bind, discard_bind]
      refine (evaluate_simulates value).bind fun result ↦ ?_
      rw [discard_ofEval_null]
      exact hdeclare result
  | block inside ih =>
    rw [Stmt.Refines, Balanced.runStmt, Reference.runStmt, discard_null]
    exact body_simulates rounds fun statement hmem ↦ ih statement hmem fun _ ↦ ⟨_, _, rfl⟩
  | when condition direct inside restDirect restInside ih ihrest =>
    rw [Stmt.Refines, Balanced.runStmt, Reference.runStmt, discard_bind]
    refine (test_simulates condition).bind fun holds ↦ ?_
    split
    · rw [discard_null]
      exact ih (by simp [direct])
    · rw [discard_null]
      refine runAlternative_simulates rounds fun statement hmem ↦ ihrest statement hmem ?_
      simp [restDirect statement hmem]
  | loop condition direct inside ih =>
    rw [Stmt.Refines, Balanced.runStmt, Reference.runStmt, discard_null]
    have hround : Stmt.Refines rounds (⟨.loop, false⟩ :: layout) past _ := ih (by simp [direct])
    exact repeatWhile_simulates (test_simulates condition) (within_simulates hround) rounds
  | switch subject direct inside ih =>
    rw [Stmt.Refines, Balanced.runStmt, Reference.runStmt, discard_null]
    refine (stopping_simulates (within_simulates ?_)).discard
    refine (select_simulates subject _).bind fun selected ↦ ?_
    cases selected with
    | none => exact .pure _
    | some place =>
      refine runArms_simulates rounds rfl (fun arm harm statement hmem ↦ ?_) place
      exact ih arm harm statement hmem (by simp [direct arm harm statement hmem])
  | leave =>
    rw [Stmt.Refines, Balanced.runStmt, Reference.runStmt, discard_null]
    exact leave_simulates
  | attempt binding inside handlerInside ih ihhandler =>
    rw [Stmt.Refines, Balanced.runStmt, Reference.runStmt, discard_null]
    refine attempt_simulates binding (body_simulates rounds ?_) (body_simulates rounds ?_)
    · exact fun statement hmem ↦ ih statement hmem fun _ ↦ ⟨_, _, rfl⟩
    · exact fun statement hmem ↦ ihhandler statement hmem fun _ ↦ ⟨_, _, rfl⟩
  | throw value =>
    rw [Stmt.Refines, Balanced.runStmt, Reference.runStmt, ofEval_bind, discard_bind]
    exact (evaluate_simulates value).bind fun result ↦ fun _ _ hagrees ↦ ⟨rfl, hagrees⟩
  | print value =>
    rw [Stmt.Refines, Balanced.runStmt, Reference.runStmt, ofEval_bind, discard_bind]
    refine (evaluate_simulates value).bind fun result ↦ ?_
    rw [discard_ofEval_null]
    exact print_simulates result.display

/-- Where a `dip` has nothing to stop at, a program ends, prints and catches as whatever its
balanced run simulates. -/
theorem runProgram_simulates {program : List Stmt} {layout : Layout}
    {reference : Structured Reference.Store Unit}
    (hbody : Simulates (Agrees layout past)
      (Balanced.within .block (Balanced.runAll rounds program)) reference)
    (hcontext : layout.context = .none) {machine : Machine} {store : Reference.Store}
    (hagrees : Agrees layout past machine store) (hcalm : machine.leaving = false) :
    (reference store).1 = (runProgram rounds program machine).1.mapError .halt ∧
      (runProgram rounds program machine).2.output.Continues past.calls
        (reference store).2.output ∧
      (runProgram rounds program machine).2.caught =
        (reference store).2.caught ++ past.caught := by
  obtain ⟨hending, hafter⟩ := hbody machine store hagrees
  have hmirrors := Unwinding.runProgram_tracks rounds program machine hcalm
  generalize Balanced.within .block (Balanced.runAll rounds program) machine = balanced at *
  generalize runProgram rounds program machine = ending at *
  cases hmirrors with
  | settled result calm => exact ⟨hending.symm, hafter.output, hafter.caught⟩
  | leaving result output caught unwound =>
    exact absurd hcontext (hafter.shown.hasTarget_iff.1 unwound.1)
  | halted reason extra held output caught => exact ⟨hending.symm, hafter.output, hafter.caught⟩

/-- Where a `dip` has nothing to stop at, a program ends, prints and catches as the reference
semantics says. -/
theorem runProgram_refines {program : List Stmt}
    (hplaced : ∀ statement ∈ program, statement.Placed) {layout : Layout}
    (hcontext : layout.context = .none) {machine : Machine} {store : Reference.Store}
    (hagrees : Agrees layout past machine store) (hcalm : machine.leaving = false) :
    (Reference.runProgram rounds program store).1 =
        (runProgram rounds program machine).1.mapError .halt ∧
      (runProgram rounds program machine).2.output.Continues past.calls
        (Reference.runProgram rounds program store).2.output ∧
      (runProgram rounds program machine).2.caught =
        (Reference.runProgram rounds program store).2.caught ++ past.caught := by
  refine runProgram_simulates rounds ?_ hcontext hagrees hcalm
  rw [Reference.runProgram, ← hcontext]
  refine body_simulates rounds fun statement hmem ↦ ?_
  exact runStmt_refines rounds (hplaced statement hmem) fun _ ↦ ⟨_, _, rfl⟩

end Refinement

theorem agrees_ofSink (sink : Sink) :
    Agrees [⟨.block, false⟩] ⟨[], []⟩ (Machine.ofSink sink) ⟨[], .ofSink sink, []⟩ :=
  ⟨.empty .block .nil, ⟨fun calls ↦ by rw [List.append_nil]; rfl, rfl⟩, rfl⟩

/-- Every source text runs as the reference semantics says, whatever is printed to and however many
rounds its loops are given: it ends in the same way and makes the same calls to the sink. -/
theorem run_eq_reference (rounds : Nat) (colors : Option Painter) (sink : Sink)
    (source : String) :
    run rounds colors sink source = Reference.run rounds colors sink source := by
  cases hreport : (parse colors source).report with
  | some report => simp only [run, Reference.run, hreport]
  | none =>
    have hplaced := parse_placed ((report_parse_eq_none_iff colors source).1 hreport)
    obtain ⟨hending, houtput, -⟩ :=
      Refinement.runProgram_refines rounds hplaced rfl (agrees_ofSink sink) rfl
    simp only [run, Reference.run, hreport]
    generalize runProgram rounds (parse colors source).body (Machine.ofSink sink) = walked at *
    generalize
      Reference.runProgram rounds (parse colors source).body ⟨[], .ofSink sink, []⟩ = expected at *
    have houtcome (ending : Except Halt Unit) :
        Reference.outcome (ending.mapError .halt) = ending.mapError .halted := by
      cases ending <;> rfl
    calc (walked.1.mapError RunError.halted, walked.2.output)
        = (Reference.outcome (walked.1.mapError .halt), walked.2.output) := by rw [houtcome]
      _ = (Reference.outcome expected.1, expected.2.output) := by rw [hending, houtput.eq_of_nil]

end Slang
