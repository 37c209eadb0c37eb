import Slang.Proofs.Effects
import Slang.Proofs.TreeInduction

/-!
# Comparing runs

Printing is the one step of a run that looks at the output of the machine; all other steps are
silent. A relation between computations is a comparison if silent steps and prints are related to
themselves and it passes through sequences and loops. A comparison relates the run of every program
to itself, with the same or with other numbers of rounds, if it passes through attempts as well or
if the program has none.
-/

namespace Slang

open Stateful

/-! ## What is printed in the course of a run -/

/-- The output behind some more lines. -/
def Output.printAll (lines : List String) (output : Output) : Output :=
  lines.foldl (fun before line ↦ (before.print line).2) output

theorem Output.printAll_append (first second : List String) (output : Output) :
    output.printAll (first ++ second) = (output.printAll first).printAll second :=
  List.foldl_append

@[simp] theorem Output.sink_printAll (lines : List String) (output : Output) :
    (output.printAll lines).sink = output.sink := by
  induction lines generalizing output with
  | nil => rfl
  | cons line lines ih => exact ih (output.print line).2

namespace Machine

def withOutput (output : Output) (machine : Machine) : Machine :=
  ⟨machine.scopes, machine.leaving, output, machine.caught⟩

/-- All that has happened to the output is that lines were printed. -/
def Prints (before after : Machine) : Prop :=
  ∃ lines, after.output = before.output.printAll lines

instance : Std.Refl Prints :=
  ⟨fun _ ↦ ⟨[], rfl⟩⟩

instance : IsTrans Machine Prints where
  trans first second third := by
    rintro ⟨lines, hsecond⟩ ⟨more, hthird⟩
    exact ⟨lines ++ more, by rw [hthird, hsecond, Output.printAll_append]⟩

end Machine

namespace Eval

variable {Result Next : Type}

theorem print_prints (line : String) : Preserves Machine.Prints (print line) := by
  intro machine
  rw [print_apply]
  exact ⟨[line], rfl⟩

/-! ## Silent computations -/

/-- The computation neither looks at the output nor changes it. -/
def Silent (computation : Eval Result) : Prop :=
  ∀ machine output, computation (machine.withOutput output) =
    ((computation machine).1, (computation machine).2.withOutput output)

namespace Silent

theorem pure (result : Result) : Silent (Pure.pure result) :=
  fun _ _ ↦ rfl

theorem throw (reason : Halt) : Silent (MonadExcept.throw reason : Eval Result) :=
  fun _ _ ↦ rfl

theorem bind {first : Eval Result} {next : Result → Eval Next} (hfirst : Silent first)
    (hnext : ∀ result, Silent (next result)) : Silent (first >>= next) := by
  intro machine output
  have houtput := hfirst machine output
  rcases hrun : first machine with ⟨reason | result, after⟩ <;> rw [hrun] at houtput
  · rw [bind_of_error houtput, bind_of_error hrun]
  · rw [bind_of_ok houtput, bind_of_ok hrun]
    exact hnext result after output

theorem output_eq {computation : Eval Result} (h : Silent computation) (machine : Machine) :
    (computation machine).2.output = machine.output := by
  have hsame : computation machine = ((computation machine).1,
      (computation machine).2.withOutput machine.output) := h machine machine.output
  rw [hsame]
  rfl

theorem prints {computation : Eval Result} (h : Silent computation) :
    Preserves Machine.Prints computation :=
  fun machine ↦ ⟨[], h.output_eq machine⟩

end Silent

theorem tryScopes_silent (change : Scopes → Except Fault Scopes) : Silent (tryScopes change) := by
  intro machine output
  have hscopes : (machine.withOutput output).scopes = machine.scopes := rfl
  cases hchange : change machine.scopes with
  | ok scopes =>
    rw [tryScopes_of_ok hchange, tryScopes_of_ok (hscopes ▸ hchange)]
    rfl
  | error fault => rw [tryScopes_of_error hchange, tryScopes_of_error (hscopes ▸ hchange)]

theorem lookup_silent (name : String) : Silent (lookup name) := by
  intro machine output
  have hscopes : (machine.withOutput output).scopes = machine.scopes := rfl
  cases hvalue : machine.scopes.get? name with
  | some value => rw [lookup_of_some hvalue, lookup_of_some (hscopes ▸ hvalue)]
  | none => rw [lookup_of_none hvalue, lookup_of_none (hscopes ▸ hvalue)]

theorem ofExcept_silent (outcome : Except Fault Result) : Silent (ofExcept outcome) := by
  cases outcome with
  | ok result => exact .pure result
  | error fault => exact .throw (.fault fault)

theorem leave_silent : Silent leave := by
  intro machine output
  have hscopes : (machine.withOutput output).scopes = machine.scopes := rfl
  rw [leave, bind_of_ok (get_apply _), bind_of_ok (get_apply _), hscopes]
  cases machine.scopes.unwind? <;> rfl

end Eval

open Eval

theorem Expr.eval_silent (expr : Expr) : Silent expr.eval := by
  fun_induction Expr.eval with
  | case1 value => exact .pure _
  | case2 contents => exact .pure _
  | case3 name => exact lookup_silent name
  | case4 op operand ih => exact ih.bind fun value ↦ ofExcept_silent _
  | case5 op left right ihleft ihright =>
    exact ihleft.bind fun first ↦ ihright.bind fun second ↦ ofExcept_silent _
  | case6 condition whenTrue whenFalse ihcondition ihtrue ihfalse =>
    refine ihcondition.bind fun value ↦ ?_
    split
    · exact ihtrue
    · exact ihfalse
  | case7 callee arguments ih => exact ih
  | case8 name value ih =>
    exact ih.bind fun result ↦ (tryScopes_silent _).bind fun _ ↦ .pure _
  | case9 target value => exact .throw _
  | case10 => exact .throw _

theorem Expr.test_silent (condition : Expr) : Silent condition.test :=
  condition.eval_silent.bind fun _ ↦ .pure _

namespace Eval

theorem matchesLabel_silent (subject : Value) (labels : List Expr) :
    Silent (matchesLabel subject labels) := by
  induction labels with
  | nil => exact .pure _
  | cons label labels ih =>
    refine label.eval_silent.bind fun value ↦ ?_
    split
    · exact .pure _
    · exact ih

theorem selectArm_silent (subject : Value) (arms : List (Arm Stmt)) (place : Nat)
    (fallback : Option Nat) : Silent (selectArm subject arms place fallback) := by
  induction arms generalizing place fallback with
  | nil => exact .pure _
  | cons arm arms ih =>
    refine (matchesLabel_silent subject arm.labels).bind fun found ↦ ?_
    split
    · exact .pure _
    · exact ih _ _

end Eval

/-! ## Comparisons -/

/-- A relation between computations that holds as far as they are made of silent steps, prints and
sequences. -/
structure Sequential (relation : ∀ Result : Type, Eval Result → Eval Result → Prop) : Prop where
  silent : ∀ {Result : Type} {computation : Eval Result}, Silent computation →
    relation Result computation computation
  print : ∀ line, relation Unit (Eval.print line) (Eval.print line)
  bind : ∀ {Result Next : Type} {first first' : Eval Result} {next next' : Result → Eval Next},
    relation Result first first' → (∀ result, relation Next (next result) (next' result)) →
    relation Next (first >>= next) (first' >>= next')

/-- The relation also passes through loops, with `rounds` rounds for one side and `rounds'` for the
other. -/
structure Comparison (rounds rounds' : Nat)
    (relation : ∀ Result : Type, Eval Result → Eval Result → Prop) : Prop
    extends Sequential relation where
  repeatWhile : ∀ {test test' : Eval Bool} {body body' : Eval Unit},
    relation Bool test test' → relation Unit body body' →
    relation Unit (Eval.repeatWhile test body rounds) (Eval.repeatWhile test' body' rounds')

/-- Attempts with related bodies and related handlers are related. -/
def PassesAttempts (relation : ∀ Result : Type, Eval Result → Eval Result → Prop) : Prop :=
  ∀ (body body' handler handler' : Eval Unit) (binding : String), relation Unit body body' →
    relation Unit handler handler' →
    relation Unit (Eval.attempt body binding handler) (Eval.attempt body' binding handler')

mutual

/-- Whether there is an attempt anywhere in a statement. -/
def Stmt.hasAttempt : Stmt → Bool
  | .attempt .. => true
  | .block statements => anyHasAttempt statements
  | .when _ body rest => Stmt.hasAttempt body || Alternative.hasAttempt rest
  | .loop _ body => Stmt.hasAttempt body
  | .switch _ arms => anyArmHasAttempt arms
  | .expression _ | .declare .. | .leave | .throw _ | .print _ => false

def Alternative.hasAttempt : Alternative → Bool
  | .none => false
  | .otherwise body => Stmt.hasAttempt body
  | .elseWhen _ body rest => Stmt.hasAttempt body || Alternative.hasAttempt rest

def anyHasAttempt : List Stmt → Bool
  | [] => false
  | statement :: statements => Stmt.hasAttempt statement || anyHasAttempt statements

def anyArmHasAttempt : List (Arm Stmt) → Bool
  | [] => false
  | ⟨_, _, statements⟩ :: arms => anyHasAttempt statements || anyArmHasAttempt arms

end

theorem hasAttempt_of_mem {statements : List Stmt} {statement : Stmt}
    (hmem : statement ∈ statements) (h : statement.hasAttempt = true) :
    anyHasAttempt statements = true := by
  induction statements with
  | nil => cases hmem
  | cons first statements ih =>
    rw [anyHasAttempt, Bool.or_eq_true]
    rcases List.mem_cons.1 hmem with rfl | hmem
    · exact .inl h
    · exact .inr (ih hmem)

theorem hasAttempt_of_mem_arm {arms : List (Arm Stmt)} {arm : Arm Stmt} (harm : arm ∈ arms)
    {statement : Stmt} (hmem : statement ∈ arm.statements) (h : statement.hasAttempt = true) :
    anyArmHasAttempt arms = true := by
  induction arms with
  | nil => cases harm
  | cons first arms ih =>
    rw [anyArmHasAttempt, Bool.or_eq_true]
    rcases List.mem_cons.1 harm with rfl | harm
    · exact .inl (hasAttempt_of_mem hmem h)
    · exact .inr (ih harm)

theorem Alternative.hasAttempt_of_mem {alternative : Alternative} {statement : Stmt}
    (hmem : statement ∈ alternative.branches) (h : statement.hasAttempt = true) :
    alternative.hasAttempt = true := by
  induction alternative using Alternative.induction with
  | none => cases hmem
  | otherwise body => exact List.mem_singleton.1 hmem ▸ h
  | elseWhen condition body rest ih =>
    rw [hasAttempt, Bool.or_eq_true]
    rcases List.mem_cons.1 hmem with rfl | hmem
    · exact .inl h
    · exact .inr (ih hmem)

namespace Sequential

variable {relation : ∀ Result : Type, Eval Result → Eval Result → Prop}
  (sequential : Sequential relation)
include sequential

theorem pure {Result : Type} (result : Result) :
    relation Result (Pure.pure result) (Pure.pure result) :=
  sequential.silent (.pure result)

theorem discard {Result : Type} {computation computation' : Eval Result}
    (h : relation Result computation computation') :
    relation Unit (Functor.discard computation) (Functor.discard computation') := by
  rw [discard_eq_bind, discard_eq_bind]
  exact sequential.bind h fun _ ↦ sequential.pure _

/-- One more round of two loops. -/
theorem repeatWhile_succ {test test' : Eval Bool} {body body' : Eval Unit}
    (htest : relation Bool test test') (hbody : relation Unit body body') {rounds rounds' : Nat}
    (hlater : relation Unit (Eval.repeatWhile test body rounds)
      (Eval.repeatWhile test' body' rounds')) :
    relation Unit (Eval.repeatWhile test body (rounds + 1))
      (Eval.repeatWhile test' body' (rounds' + 1)) := by
  have hround : relation Bool (loopRound body) (loopRound body') := by
    refine sequential.bind (sequential.silent fun _ _ ↦ rfl) fun outside ↦ ?_
    refine sequential.bind (sequential.silent fun _ _ ↦ rfl) fun _ ↦ ?_
    refine sequential.bind hbody fun _ ↦ ?_
    refine sequential.bind (sequential.silent fun _ _ ↦ rfl) fun _ ↦ ?_
    exact sequential.silent fun _ _ ↦ rfl
  refine sequential.bind htest fun holds ↦ ?_
  split
  · refine sequential.bind hround fun stopped ↦ ?_
    split
    · exact sequential.pure _
    · exact hlater
  · exact sequential.pure _

/-- With the same number of rounds, what passes through sequences passes through loops. -/
theorem comparison (rounds : Nat) : Comparison rounds rounds relation where
  toSequential := sequential
  repeatWhile htest hbody := by
    induction rounds with
    | zero => exact sequential.silent (.throw .outOfRounds)
    | succ rounds ih => exact sequential.repeatWhile_succ htest hbody ih

end Sequential

namespace Comparison

variable {rounds rounds' : Nat} {relation : ∀ Result : Type, Eval Result → Eval Result → Prop}
  (comparison : Comparison rounds rounds' relation)
include comparison

theorem inBlock {body body' : Nat → Eval Unit}
    (h : ∀ outside, relation Unit (body outside) (body' outside)) :
    relation Unit (Eval.inBlock body) (Eval.inBlock body') := by
  refine comparison.bind (comparison.silent fun _ _ ↦ rfl) fun outside ↦ ?_
  exact comparison.bind (comparison.silent fun _ _ ↦ rfl) fun _ ↦ h outside

theorem switch (subject : Expr) (arms : List (Arm Stmt)) {runFrom runFrom' : Nat → Eval Unit}
    (h : ∀ place, relation Unit (runFrom place) (runFrom' place)) :
    relation Unit (Eval.switch subject arms runFrom) (Eval.switch subject arms runFrom') := by
  refine comparison.bind (comparison.silent fun _ _ ↦ rfl) fun outside ↦ ?_
  refine comparison.bind (comparison.silent fun _ _ ↦ rfl) fun _ ↦ ?_
  refine comparison.bind (comparison.silent subject.eval_silent) fun value ↦ ?_
  refine comparison.bind (comparison.silent (selectArm_silent value arms 0 none)) fun selected ↦ ?_
  have hdrop {first first' : Eval Unit} (hfirst : relation Unit first first') :
      relation Unit (do first; truncate outside) (do first'; truncate outside) :=
    comparison.bind hfirst fun _ ↦ comparison.silent fun _ _ ↦ rfl
  cases selected with
  | none => exact hdrop (comparison.pure ())
  | some place => exact hdrop (h place)

theorem runAll {statements : List Stmt}
    (h : ∀ statement ∈ statements,
      relation Value (statement.run rounds) (statement.run rounds')) (outside : Nat) :
    relation Unit (Slang.runAll rounds outside statements)
      (Slang.runAll rounds' outside statements) := by
  induction statements with
  | nil => exact comparison.silent fun _ _ ↦ rfl
  | cons statement statements ih =>
    obtain ⟨hstatement, hstatements⟩ := List.forall_mem_cons.1 h
    rw [Slang.runAll, Slang.runAll]
    refine comparison.bind (comparison.discard hstatement) fun _ ↦ ?_
    refine comparison.bind (comparison.silent fun _ _ ↦ rfl) fun stops ↦ ?_
    split
    · exact comparison.pure _
    · exact ih hstatements

theorem runArm {statements : List Stmt}
    (h : ∀ statement ∈ statements,
      relation Value (statement.run rounds) (statement.run rounds')) :
    relation Bool (Slang.runArm rounds statements) (Slang.runArm rounds' statements) := by
  induction statements with
  | nil =>
    rw [Slang.runArm, Slang.runArm]
    exact comparison.pure _
  | cons statement statements ih =>
    obtain ⟨hstatement, hstatements⟩ := List.forall_mem_cons.1 h
    rw [Slang.runArm, Slang.runArm]
    refine comparison.bind (comparison.discard hstatement) fun _ ↦ ?_
    refine comparison.bind (comparison.silent fun _ _ ↦ rfl) fun taken ↦ ?_
    split
    · exact comparison.pure _
    · exact ih hstatements

theorem runArms {arms : List (Arm Stmt)}
    (h : ∀ arm ∈ arms, ∀ statement ∈ arm.statements,
      relation Value (statement.run rounds) (statement.run rounds')) (skipped : Nat) :
    relation Unit (Slang.runArms rounds skipped arms) (Slang.runArms rounds' skipped arms) := by
  induction arms generalizing skipped with
  | nil =>
    rw [Slang.runArms, Slang.runArms]
    exact comparison.pure _
  | cons arm arms ih =>
    obtain ⟨harm, harms⟩ := List.forall_mem_cons.1 h
    cases skipped with
    | succ skipped =>
      rw [Slang.runArms, Slang.runArms]
      exact ih harms skipped
    | zero =>
      rw [Slang.runArms, Slang.runArms]
      refine comparison.bind (comparison.runArm harm) fun left ↦ ?_
      split
      · exact comparison.pure _
      · exact ih harms 0

theorem runAlternative {alternative : Alternative}
    (h : ∀ statement ∈ alternative.branches,
      relation Value (statement.run rounds) (statement.run rounds')) :
    relation Unit (alternative.run rounds) (alternative.run rounds') := by
  induction alternative using Alternative.induction with
  | none =>
    rw [Alternative.run, Alternative.run]
    exact comparison.pure _
  | otherwise body =>
    rw [Alternative.run, Alternative.run]
    exact comparison.discard (h body (List.mem_singleton_self body))
  | elseWhen condition body rest ih =>
    obtain ⟨hbody, hrest⟩ := List.forall_mem_cons.1 h
    rw [Alternative.run, Alternative.run]
    refine comparison.bind (comparison.silent condition.test_silent) fun holds ↦ ?_
    split
    · exact comparison.discard hbody
    · exact ih hrest

/-- A comparison relates the runs of a statement, if it passes through attempts or the statement has
none. -/
theorem run {statement : Stmt} (hattempts : statement.hasAttempt = true → PassesAttempts relation) :
    relation Value (statement.run rounds) (statement.run rounds') := by
  induction statement using Stmt.induction with
  | expression value =>
    rw [Stmt.run, Stmt.run]
    exact comparison.silent value.eval_silent
  | declare name value =>
    cases value with
    | none =>
      rw [Stmt.run, Stmt.run]
      exact comparison.silent ((tryScopes_silent _).bind fun _ ↦ .pure _)
    | some value =>
      rw [Stmt.run, Stmt.run]
      refine comparison.silent (value.eval_silent.bind fun result ↦ ?_)
      exact (tryScopes_silent _).bind fun _ ↦ .pure _
  | block statements ih =>
    rw [Stmt.run, Stmt.run]
    refine comparison.bind (comparison.inBlock fun outside ↦ ?_) fun _ ↦ comparison.pure _
    refine comparison.runAll (fun statement hmem ↦ ih statement hmem fun hattempt ↦ ?_) outside
    exact hattempts (hasAttempt_of_mem hmem hattempt)
  | when condition body rest ihbody ihrest =>
    rw [Stmt.hasAttempt, Bool.or_eq_true] at hattempts
    rw [Stmt.run, Stmt.run]
    refine comparison.bind (comparison.silent condition.test_silent) fun holds ↦ ?_
    split
    · have hbody := ihbody fun hattempt ↦ hattempts (.inl hattempt)
      exact comparison.bind (comparison.discard hbody) fun _ ↦ comparison.pure _
    · refine comparison.bind ?_ fun _ ↦ comparison.pure _
      refine comparison.runAlternative fun statement hmem ↦ ihrest statement hmem fun hattempt ↦ ?_
      exact hattempts (.inr (Alternative.hasAttempt_of_mem hmem hattempt))
  | loop condition body ih =>
    rw [Stmt.run, Stmt.run]
    refine comparison.bind ?_ fun _ ↦ comparison.pure _
    exact comparison.repeatWhile (comparison.silent condition.test_silent)
      (comparison.discard (ih hattempts))
  | switch subject arms ih =>
    rw [Stmt.run, Stmt.run]
    refine comparison.bind (comparison.switch subject arms fun place ↦ ?_) fun _ ↦
      comparison.pure _
    refine comparison.runArms (fun arm harm statement hmem ↦ ?_) place
    exact ih arm harm statement hmem fun hattempt ↦
      hattempts (hasAttempt_of_mem_arm harm hmem hattempt)
  | leave =>
    rw [Stmt.run, Stmt.run]
    exact comparison.silent (leave_silent.bind fun _ ↦ .pure _)
  | attempt body binding handler ihbody ihhandler =>
    have hpasses := hattempts rfl
    rw [Stmt.run, Stmt.run]
    refine comparison.bind (hpasses _ _ _ _ binding ?_ ?_) fun _ ↦ comparison.pure _
    · exact comparison.inBlock (comparison.runAll fun statement hmem ↦
        ihbody statement hmem fun _ ↦ hpasses)
    · exact comparison.inBlock (comparison.runAll fun statement hmem ↦
        ihhandler statement hmem fun _ ↦ hpasses)
  | throw value =>
    rw [Stmt.run, Stmt.run]
    exact comparison.silent (value.eval_silent.bind fun _ ↦ .throw _)
  | print value =>
    rw [Stmt.run, Stmt.run]
    refine comparison.bind (comparison.silent value.eval_silent) fun result ↦ ?_
    exact comparison.bind (comparison.print _) fun _ ↦ comparison.pure _

theorem runProgram {program : List Stmt}
    (hattempts : anyHasAttempt program = true → PassesAttempts relation) :
    relation Unit (Slang.runProgram rounds program) (Slang.runProgram rounds' program) := by
  refine comparison.inBlock (comparison.runAll fun statement hmem ↦ comparison.run fun h ↦ ?_)
  exact hattempts (hasAttempt_of_mem hmem h)

end Comparison

end Slang
