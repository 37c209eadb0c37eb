import Mathlib.Logic.Relation
import Slang.Proofs.ParseShape
import Slang.Proofs.Rounds
import Slang.Run

/-!
# Where faults come from

A run is made of the runs it starts: of statements, of what is left of lists, arms and loops, each
on the machine that the runs before it left behind. Every fault that is raised in a run, whether it
escapes or is caught, can be followed back along them. A thrown text was thrown by a statement that
was run, a refusal was the sink's answer to a line that was printed, and a program without reports
gives no occasion for any fault that would be the interpreter's own.
-/

namespace Slang

open Stateful

/-! ## Runs inside runs -/

/-- What a run can be in the middle of. -/
inductive Task where
  | statement (whole : Stmt)
  | alternative (rest : Alternative)
  /-- What is left of a statement list, and the depth outside its frame. -/
  | list (outside : Nat) (statements : List Stmt)
  | arms (skipped : Nat) (arms : List (Arm Stmt))
  /-- What is left of the statements of an arm. -/
  | arm (statements : List Stmt)
  /-- A loop that has so many rounds left. -/
  | loop (condition : Expr) (body : Stmt) (left : Nat)

/-- A task that is about to be run on a machine. -/
structure Point where
  task : Task
  machine : Machine

namespace Machine

def push (kind : FrameKind) (machine : Machine) : Machine :=
  machine.withScopes (machine.scopes.push kind)

/-- The machine on which a handler runs, given the depth outside the attempt and the machine that
the fault left behind. The frame of the handler holds what was caught and nothing else. -/
def handling (depth : Nat) (binding : String) (fault : Fault) (machine : Machine) : Machine :=
  ⟨⟨⟨.block, [(binding, .text fault.message)]⟩ :: (machine.scopes.truncate depth).frames⟩, false,
    machine.output, fault :: machine.caught⟩

end Machine

/-- The second task is run directly by the first, and this is the machine it is run on. -/
inductive Starts (rounds : Nat) : Point → Point → Prop
  | block (statements : List Stmt) (machine : Machine) :
    Starts rounds ⟨.statement (.block statements), machine⟩
      ⟨.list machine.scopes.depth statements, machine.push .block⟩
  | first (outside : Nat) (statement : Stmt) (statements : List Stmt) (machine : Machine) :
    Starts rounds ⟨.list outside (statement :: statements), machine⟩ ⟨.statement statement, machine⟩
  | next {outside : Nat} {statement : Stmt} (statements : List Stmt) {machine after : Machine}
      (ran : discard (statement.run rounds) machine = (.ok (), after))
      (goes : Eval.mustStop outside after = (.ok false, after)) :
    Starts rounds ⟨.list outside (statement :: statements), machine⟩
      ⟨.list outside statements, after⟩
  | holds {condition : Expr} (body : Stmt) (rest : Alternative) {machine after : Machine}
      (tested : condition.test machine = (.ok true, after)) :
    Starts rounds ⟨.statement (.when condition body rest), machine⟩ ⟨.statement body, after⟩
  | fails {condition : Expr} (body : Stmt) (rest : Alternative) {machine after : Machine}
      (tested : condition.test machine = (.ok false, after)) :
    Starts rounds ⟨.statement (.when condition body rest), machine⟩ ⟨.alternative rest, after⟩
  | otherwise (body : Stmt) (machine : Machine) :
    Starts rounds ⟨.alternative (.otherwise body), machine⟩ ⟨.statement body, machine⟩
  | elseHolds {condition : Expr} (body : Stmt) (rest : Alternative) {machine after : Machine}
      (tested : condition.test machine = (.ok true, after)) :
    Starts rounds ⟨.alternative (.elseWhen condition body rest), machine⟩ ⟨.statement body, after⟩
  | elseFails {condition : Expr} (body : Stmt) (rest : Alternative) {machine after : Machine}
      (tested : condition.test machine = (.ok false, after)) :
    Starts rounds ⟨.alternative (.elseWhen condition body rest), machine⟩
      ⟨.alternative rest, after⟩
  | loop (condition : Expr) (body : Stmt) (machine : Machine) :
    Starts rounds ⟨.statement (.loop condition body), machine⟩
      ⟨.loop condition body rounds, machine⟩
  | round {condition : Expr} (body : Stmt) (left : Nat) {machine after : Machine}
      (tested : condition.test machine = (.ok true, after)) :
    Starts rounds ⟨.loop condition body (left + 1), machine⟩ ⟨.statement body, after.push .loop⟩
  | again {condition : Expr} {body : Stmt} (left : Nat) {machine middle after : Machine}
      (tested : condition.test machine = (.ok true, middle))
      (ran : Eval.loopRound (discard (body.run rounds)) middle = (.ok false, after)) :
    Starts rounds ⟨.loop condition body (left + 1), machine⟩ ⟨.loop condition body left, after⟩
  | switch {subject : Expr} {arms : List (Arm Stmt)} {place : Nat} {machine after : Machine}
      (selected : Balanced.select subject arms (machine.push .switch) = (.ok (some place), after)) :
    Starts rounds ⟨.statement (.switch subject arms), machine⟩ ⟨.arms place arms, after⟩
  | skip (skipped : Nat) (arm : Arm Stmt) (arms : List (Arm Stmt)) (machine : Machine) :
    Starts rounds ⟨.arms (skipped + 1) (arm :: arms), machine⟩ ⟨.arms skipped arms, machine⟩
  | arm (arm : Arm Stmt) (arms : List (Arm Stmt)) (machine : Machine) :
    Starts rounds ⟨.arms 0 (arm :: arms), machine⟩ ⟨.arm arm.statements, machine⟩
  | fallThrough {arm : Arm Stmt} (arms : List (Arm Stmt)) {machine after : Machine}
      (ran : runArm rounds arm.statements machine = (.ok false, after)) :
    Starts rounds ⟨.arms 0 (arm :: arms), machine⟩ ⟨.arms 0 arms, after⟩
  | armFirst (statement : Stmt) (statements : List Stmt) (machine : Machine) :
    Starts rounds ⟨.arm (statement :: statements), machine⟩ ⟨.statement statement, machine⟩
  | armNext {statement : Stmt} (statements : List Stmt) {machine middle after : Machine}
      (ran : discard (statement.run rounds) machine = (.ok (), middle))
      (goes : Eval.takeLeaving middle = (.ok false, after)) :
    Starts rounds ⟨.arm (statement :: statements), machine⟩ ⟨.arm statements, after⟩
  | attempt (body : List Stmt) (binding : String) (handler : List Stmt) (machine : Machine) :
    Starts rounds ⟨.statement (.attempt body binding handler), machine⟩
      ⟨.statement (.block body), machine.push .attempt⟩
  | rescue {body : List Stmt} (binding : String) (handler : List Stmt) {machine after : Machine}
      {fault : Fault}
      (failed : discard ((Stmt.block body).run rounds) (machine.push .attempt) =
        (.error (.fault fault), after)) :
    Starts rounds ⟨.statement (.attempt body binding handler), machine⟩
      ⟨.statement (.block handler), after.handling machine.scopes.depth binding fault⟩

/-- The second task is run in the course of the first. -/
abbrev Executes (rounds : Nat) : Point → Point → Prop :=
  Relation.ReflTransGen (Starts rounds)

/-! ## The sink of a run -/

section Sink

variable {rounds : Nat}

theorem Stmt.run_prints (statement : Stmt) : Preserves Machine.Prints (statement.run rounds) :=
  ((Eval.Extends.comparison (Nat.le_refl rounds)).run fun _ ↦ Eval.Extends.passesAttempts).prints

theorem runArm_prints (statements : List Stmt) :
    Preserves Machine.Prints (runArm rounds statements) :=
  have hcomparison := Eval.Extends.comparison (Nat.le_refl rounds)
  (hcomparison.runArm fun _ _ ↦ hcomparison.run fun _ ↦ Eval.Extends.passesAttempts).prints

theorem Eval.loopRound_prints {body : Eval Unit} (h : Preserves Machine.Prints body) :
    Preserves Machine.Prints (loopRound body) := by
  have hquiet (depth : Nat) : Preserves Machine.Prints (do truncate depth; takeLeaving) :=
    fun _ ↦ ⟨[], rfl⟩
  intro machine
  exact (h.bind fun _ ↦ hquiet machine.scopes.depth) (machine.push .loop)

/-- Between a task and one that it starts, nothing happens to the output but that lines are
printed. -/
theorem Starts.prints {start point : Point} (h : Starts rounds start point) :
    start.machine.Prints point.machine := by
  have hof {Result : Type} {computation : Eval Result} {machine after : Machine}
      {outcome : Except Halt Result} (hprints : Preserves Machine.Prints computation)
      (hrun : computation machine = (outcome, after)) : machine.Prints after := by
    have hafter := hprints machine
    rwa [hrun] at hafter
  cases h with
  | block | first | otherwise | loop | skip | arm | armFirst | attempt => exact ⟨[], rfl⟩
  | next _ ran => exact hof (Stmt.run_prints _).discard ran
  | holds _ _ tested | fails _ _ tested | elseHolds _ _ tested | elseFails _ _ tested =>
    exact hof (Expr.test_silent _).prints tested
  -- A frame that is opened or dropped does not touch the output.
  | round _ _ tested =>
    have hafter := hof (Expr.test_silent _).prints tested
    exact hafter
  | again _ tested ran =>
    exact trans_of Machine.Prints (hof (Expr.test_silent _).prints tested)
      (hof (Eval.loopRound_prints (Stmt.run_prints _).discard) ran)
  | @switch subject arms _ _ _ selected =>
    have hsilent : Eval.Silent (Balanced.select subject arms) :=
      subject.eval_silent.bind fun value ↦ Eval.selectArm_silent value arms 0 none
    have hafter := hof hsilent.prints selected
    exact hafter
  | fallThrough _ ran => exact hof (runArm_prints _) ran
  | armNext _ ran goes =>
    obtain ⟨lines, hlines⟩ := hof (Stmt.run_prints _).discard ran
    exact ⟨lines, (congrArg (·.2.output) goes).symm.trans hlines⟩
  | rescue _ _ failed =>
    have hafter := hof (Stmt.run_prints _).discard failed
    exact hafter

theorem Starts.sink_eq {start point : Point} (h : Starts rounds start point) :
    point.machine.output.sink = start.machine.output.sink := by
  obtain ⟨lines, hlines⟩ := h.prints
  rw [hlines, Output.sink_printAll]

end Sink

/-! ## Origins -/

/-- What led to a fault in the course of a task: a value that was thrown, or a line that the sink
of the task refused. Faults of scoping and operators need no other cause than the expressions of the
program, and the interpreter's own faults have none. -/
def Fault.HasOrigin (rounds : Nat) (start : Point) : Fault → Prop
  | .thrown text => ∃ value machine result after,
    Executes rounds start ⟨.statement (.throw value), machine⟩ ∧
      value.eval machine = (.ok result, after) ∧ text = result.display
  | .output message => ∃ value machine result after,
    Executes rounds start ⟨.statement (.print value), machine⟩ ∧
      value.eval machine = (.ok result, after) ∧
      start.machine.output.sink after.output.calls result.display = some message
  | .undefinedVariable _ | .alreadyDefined _ | .notAVariable | .strayLeave
  | .unsupportedOperands .. | .unsupportedOperand .. => True
  | .brokenProgram | .noFrame => False

theorem Fault.HasOrigin.of_starts {rounds : Nat} {start point : Point} {fault : Fault}
    (h : fault.HasOrigin rounds point) (hstarts : Starts rounds start point) :
    fault.HasOrigin rounds start := by
  cases fault with
  | thrown text =>
    obtain ⟨value, machine, result, after, hexecutes, hthrown⟩ := h
    exact ⟨value, machine, result, after, .head hstarts hexecutes, hthrown⟩
  | output message =>
    obtain ⟨value, machine, result, after, hexecutes, hrefused⟩ := h
    rw [hstarts.sink_eq] at hrefused
    exact ⟨value, machine, result, after, .head hstarts hexecutes, hrefused⟩
  | _ => exact h

/-- The faults that expressions can raise. -/
def Fault.IsOfExpression : Fault → Prop
  | .undefinedVariable _ | .notAVariable | .unsupportedOperands .. | .unsupportedOperand .. => True
  | _ => False

theorem Fault.IsOfExpression.hasOrigin {fault : Fault} (h : fault.IsOfExpression) (rounds : Nat)
    (start : Point) : fault.HasOrigin rounds start := by
  cases fault <;> first | exact trivial | cases h

/-! ## Expressions -/

namespace Eval

variable {Result Next : Type}

/-- Every fault that a computation raises is of the given sort. -/
def Raises (sort : Fault → Prop) (computation : Eval Result) : Prop :=
  ∀ machine fault after, computation machine = (.error (.fault fault), after) → sort fault

namespace Raises

variable {sort : Fault → Prop}

theorem pure (result : Result) : Raises sort (Pure.pure result : Eval Result) := by
  intro machine fault after hrun
  cases hrun

theorem fail {fault : Fault} (h : sort fault) : Raises sort (Eval.fail fault : Eval Result) := by
  intro machine raised after hrun
  cases hrun
  exact h

theorem bind {first : Eval Result} {next : Result → Eval Next} (hfirst : Raises sort first)
    (hnext : ∀ result, Raises sort (next result)) : Raises sort (first >>= next) := by
  intro machine fault after hrun
  rcases hmiddle : first machine with ⟨reason | result, middle⟩
  · rw [bind_of_error hmiddle] at hrun
    cases hrun
    exact hfirst machine fault after hmiddle
  · rw [bind_of_ok hmiddle] at hrun
    exact hnext result middle fault after hrun

theorem ofExcept {outcome : Except Fault Result}
    (h : ∀ fault, outcome = .error fault → sort fault) : Raises sort (Eval.ofExcept outcome) := by
  cases outcome with
  | error fault => exact fail (h fault rfl)
  | ok result => exact pure result

end Raises

theorem lookup_raises (name : String) : Raises Fault.IsOfExpression (lookup name) := by
  intro machine fault after hrun
  cases hvalue : machine.scopes.get? name with
  | none =>
    rw [lookup_of_none hvalue] at hrun
    cases hrun
    trivial
  | some value =>
    rw [lookup_of_some hvalue] at hrun
    cases hrun

theorem assign_raises (name : String) (value : Value) :
    Raises Fault.IsOfExpression (tryScopes (Scopes.assign name value)) := by
  intro machine fault after hrun
  cases hassign : Scopes.updateFirst? name value machine.scopes.frames with
  | none =>
    rw [tryScopes_of_error (by rw [Scopes.assign, hassign])] at hrun
    cases hrun
    trivial
  | some frames =>
    rw [tryScopes_of_ok (by rw [Scopes.assign, hassign])] at hrun
    cases hrun

end Eval

section Expressions

open Eval

variable {leaf : TokenKind → Bool}

theorem BinaryOp.apply_raises (op : BinaryOp) (left right : Value) :
    Raises Fault.IsOfExpression (Eval.ofExcept (op.apply left right)) := by
  refine .ofExcept fun fault hfault ↦ ?_
  unfold BinaryOp.apply at hfault
  split at hfault <;> cases hfault
  trivial

theorem UnaryOp.apply_raises (op : UnaryOp) (operand : Value) :
    Raises Fault.IsOfExpression (Eval.ofExcept (op.apply operand)) := by
  refine .ofExcept fun fault hfault ↦ ?_
  unfold UnaryOp.apply at hfault
  split at hfault <;> cases hfault
  trivial

theorem Expr.eval_raises {expr : Expr} (h : expr.isWellFormed leaf = true) :
    Raises Fault.IsOfExpression expr.eval := by
  fun_induction Expr.eval with
  | case1 value => exact .pure _
  | case2 contents => exact .pure _
  | case3 name => exact lookup_raises name
  | case4 op operand ih => exact (ih h).bind fun value ↦ op.apply_raises value
  | case5 op left right ihleft ihright =>
    rw [Expr.isWellFormed, Bool.and_eq_true] at h
    exact (ihleft h.1).bind fun first ↦ (ihright h.2).bind fun second ↦ op.apply_raises first second
  | case6 condition whenTrue whenFalse ihcondition ihtrue ihfalse =>
    rw [Expr.isWellFormed, Bool.and_eq_true, Bool.and_eq_true] at h
    refine (ihcondition h.1.1).bind fun value ↦ ?_
    split
    · exact ihtrue h.1.2
    · exact ihfalse h.2
  | case7 callee arguments ih =>
    rw [Expr.isWellFormed, Bool.and_eq_true] at h
    exact ih h.1
  | case8 name value ih =>
    rw [Expr.isWellFormed, Bool.and_eq_true] at h
    exact (ih h.2).bind fun result ↦ (assign_raises name result).bind fun _ ↦ .pure _
  | case9 target value => exact .fail trivial
  | case10 => cases h

theorem Expr.test_raises {condition : Expr} (h : condition.isWellFormed leaf = true) :
    Raises Fault.IsOfExpression condition.test :=
  (condition.eval_raises h).bind fun _ ↦ .pure _

theorem Eval.matchesLabel_raises (subject : Value) {labels : List Expr}
    (h : ∀ label ∈ labels, label.isWellFormed leaf = true) :
    Raises Fault.IsOfExpression (matchesLabel subject labels) := by
  induction labels with
  | nil => exact .pure _
  | cons label labels ih =>
    obtain ⟨hlabel, hlabels⟩ := List.forall_mem_cons.1 h
    refine (label.eval_raises hlabel).bind fun value ↦ ?_
    split
    · exact .pure _
    · exact ih hlabels

theorem Eval.selectArm_raises (subject : Value) {arms : List (Arm Stmt)}
    (h : ∀ arm ∈ arms, ∀ label ∈ arm.labels, label.isWellFormed leaf = true) (place : Nat)
    (fallback : Option Nat) :
    Raises Fault.IsOfExpression (selectArm subject arms place fallback) := by
  induction arms generalizing place fallback with
  | nil => exact .pure _
  | cons arm arms ih =>
    obtain ⟨harm, harms⟩ := List.forall_mem_cons.1 h
    refine (matchesLabel_raises subject harm).bind fun found ↦ ?_
    split
    · exact .pure _
    · exact ih harms _ _

theorem Balanced.select_raises {subject : Expr} (hsubject : subject.isWellFormed leaf = true)
    {arms : List (Arm Stmt)}
    (h : ∀ arm ∈ arms, ∀ label ∈ arm.labels, label.isWellFormed leaf = true) :
    Raises Fault.IsOfExpression (select subject arms) :=
  (subject.eval_raises hsubject).bind fun value ↦ selectArm_raises value h 0 none

theorem Balanced.select_assigns (subject : Expr) (arms : List (Arm Stmt)) :
    Preserves Machine.Assigns (select subject arms) :=
  subject.eval_assigns.bind fun value ↦ selectArm_assigns value arms 0 none

end Expressions

/-! ## Statements -/

/-- From this machine a computation ends with a frame at least, and every fault that it raises or
that is caught in its course satisfies the condition. -/
structure Traced {Result : Type} (condition : Fault → Prop) (computation : Eval Result)
    (machine : Machine) : Prop where
  frames : (computation machine).2.scopes.frames ≠ []
  raised : ∀ fault, (computation machine).1 = .error (.fault fault) → condition fault
  caught : ∀ fault ∈ (computation machine).2.caught, fault ∈ machine.caught ∨ condition fault

namespace Traced

variable {Result Next : Type} {condition : Fault → Prop} {computation : Eval Result}
  {machine after : Machine}

theorem of_ok {result : Result} (h : computation machine = (.ok result, after))
    (hframes : after.scopes.frames ≠ []) (hcaught : after.caught = machine.caught) :
    Traced condition computation machine := by
  refine ⟨?_, ?_, ?_⟩ <;> rw [h]
  · exact hframes
  · intro fault hfault
    cases hfault
  · exact fun fault hmem ↦ .inl (hcaught ▸ hmem)

theorem of_fault {fault : Fault} (h : computation machine = (.error (.fault fault), after))
    (hframes : after.scopes.frames ≠ []) (hcaught : after.caught = machine.caught)
    (hfault : condition fault) : Traced condition computation machine := by
  refine ⟨?_, ?_, ?_⟩ <;> rw [h]
  · exact hframes
  · intro raised hraised
    cases hraised
    exact hfault
  · exact fun raised hmem ↦ .inl (hcaught ▸ hmem)

theorem pure (hframes : machine.scopes.frames ≠ []) (result : Result) :
    Traced condition (Pure.pure result) machine :=
  of_ok rfl hframes rfl

theorem bind {first : Eval Result} {next : Result → Eval Next}
    (hfirst : Traced condition first machine)
    (hnext : ∀ result after, first machine = (.ok result, after) → after.scopes.frames ≠ [] →
      Traced condition (next result) after) : Traced condition (first >>= next) machine := by
  rcases hrun : first machine with ⟨reason | result, after⟩
  · have hbind : (first >>= next) machine = (.error reason, after) := bind_of_error hrun
    obtain ⟨hframes, hraised, hcaught⟩ := hfirst
    rw [hrun] at hframes hraised hcaught
    refine ⟨?_, ?_, ?_⟩ <;> rw [hbind]
    · exact hframes
    · intro fault hfault
      cases hfault
      exact hraised fault rfl
    · exact hcaught
  · have hframes := hfirst.frames
    have hcaught := hfirst.caught
    rw [hrun] at hframes hcaught
    have hlater := hnext result after hrun hframes
    refine ⟨?_, ?_, ?_⟩ <;> rw [bind_of_ok hrun]
    · exact hlater.frames
    · exact hlater.raised
    · intro fault hmem
      rcases hlater.caught fault hmem with hmem | hfault
      · exact hcaught fault hmem
      · exact .inr hfault

/-- A computation that goes on with another one on a machine that has caught the same faults. -/
theorem of_eq {other : Eval Result} (h : Traced condition other after)
    (heq : computation machine = other after) (hcaught : after.caught = machine.caught) :
    Traced condition computation machine := by
  refine ⟨?_, ?_, ?_⟩ <;> rw [heq]
  · exact h.frames
  · exact h.raised
  · exact hcaught ▸ h.caught

theorem discard (h : Traced condition computation machine) :
    Traced condition (Functor.discard computation) machine := by
  rw [discard_eq_bind]
  exact h.bind fun _ _ _ hframes ↦ pure hframes ()

theorem mono {weaker : Fault → Prop} (h : Traced condition computation machine)
    (hweaker : ∀ fault, condition fault → weaker fault) : Traced weaker computation machine :=
  ⟨h.frames, fun fault hraised ↦ hweaker fault (h.raised fault hraised), fun fault hmem ↦
    (h.caught fault hmem).imp_right (hweaker fault)⟩

/-- What has an origin in the course of a task has one in the course of the task that starts it. -/
theorem of_starts {rounds : Nat} {start point : Point}
    (h : Traced (Fault.HasOrigin rounds point) computation machine)
    (hstarts : Starts rounds start point) :
    Traced (Fault.HasOrigin rounds start) computation machine :=
  h.mono fun _ horigin ↦ horigin.of_starts hstarts

/-- An expression raises faults of expressions only, and catches nothing. -/
theorem of_assigns (hassigns : Preserves Machine.Assigns computation)
    (hraises : Eval.Raises Fault.IsOfExpression computation)
    (hframes : machine.scopes.frames ≠ []) (rounds : Nat) (start : Point) :
    Traced (Fault.HasOrigin rounds start) computation machine := by
  obtain ⟨hshapes, -, -, hcaught⟩ := hassigns machine
  have hframes' : (computation machine).2.scopes.frames ≠ [] := by
    intro hnil
    rw [hnil] at hshapes
    exact hframes (List.map_eq_nil_iff.1 hshapes.symm)
  refine ⟨hframes', fun fault hfault ↦ ?_, fun fault hmem ↦ .inl (hcaught ▸ hmem)⟩
  exact (hraises machine fault _ (Prod.ext hfault rfl)).hasOrigin rounds start

theorem truncate {depth : Nat} (hdepth : 0 < depth) (hframes : machine.scopes.frames ≠ []) :
    Traced condition (Eval.truncate depth) machine := by
  refine of_ok (Eval.truncate_apply depth machine) ?_ rfl
  have hlength : 0 < (machine.scopes.truncate depth).depth := by
    rw [Scopes.depth_truncate]
    exact Nat.lt_min.2 ⟨hdepth, List.length_pos_iff.2 hframes⟩
  exact List.length_pos_iff.1 hlength

end Traced

section Expressions

variable {leaf : TokenKind → Bool} {value : Expr} {machine : Machine} {rounds : Nat} {start : Point}

theorem Expr.eval_traced (h : value.isWellFormed leaf = true)
    (hframes : machine.scopes.frames ≠ []) :
    Traced (Fault.HasOrigin rounds start) value.eval machine :=
  .of_assigns value.eval_assigns (value.eval_raises h) hframes rounds start

theorem Expr.test_traced (h : value.isWellFormed leaf = true)
    (hframes : machine.scopes.frames ≠ []) :
    Traced (Fault.HasOrigin rounds start) value.test machine :=
  .of_assigns value.test_assigns (value.test_raises h) hframes rounds start

end Expressions

/-- A declaration finds a frame. -/
theorem Eval.declare_traced (name : String) (value : Value) {machine : Machine}
    (hframes : machine.scopes.frames ≠ []) (rounds : Nat) (start : Point) :
    Traced (Fault.HasOrigin rounds start) (tryScopes (Scopes.declare name value)) machine := by
  obtain ⟨frame, outer, hcons⟩ := List.exists_cons_of_ne_nil hframes
  by_cases hknown : name ∈ frame.names
  · have hdeclare : machine.scopes.declare name value = .error (.alreadyDefined name) := by
      rw [Scopes.declare, hcons]
      exact if_pos hknown
    exact .of_fault (tryScopes_of_error hdeclare) hframes rfl trivial
  · have hdeclare : machine.scopes.declare name value =
        .ok ⟨frame.insert name value :: outer⟩ := by
      rw [Scopes.declare, hcons]
      exact if_neg hknown
    exact .of_ok (tryScopes_of_ok hdeclare) (List.cons_ne_nil _ _) rfl

theorem Eval.leave_traced {machine : Machine} (hframes : machine.scopes.frames ≠ [])
    (rounds : Nat) (start : Point) :
    Traced (Fault.HasOrigin rounds start) leave machine := by
  by_cases htarget : Frames.HasTarget machine.scopes.frames
  · have hleave : leave machine = (.ok (), ⟨⟨machine.scopes.frames.dropWhile (·.kind = .block)⟩,
        true, machine.output, machine.caught⟩) := by
      rw [leave, bind_of_ok (get_apply _), Frames.unwind?_of_hasTarget htarget]
      rfl
    apply Traced.of_ok hleave _ rfl
    obtain ⟨frame, hmem, hkind⟩ := htarget
    intro hnil
    exact hkind (of_decide_eq_true (List.dropWhile_eq_nil_iff.1 hnil frame hmem))
  · have hleave : leave machine = (.error (.fault .strayLeave), machine) := by
      rw [leave, bind_of_ok (get_apply _), Frames.unwind?_of_not_hasTarget htarget]
      rfl
    exact .of_fault hleave hframes rfl trivial

section Statements

variable (rounds : Nat)

/-- Wherever a statement is run, its faults have origins in its course. -/
def Stmt.IsTraced (statement : Stmt) : Prop :=
  ∀ machine, machine.scopes.frames ≠ [] →
    Traced (Fault.HasOrigin rounds ⟨.statement statement, machine⟩)
      (discard (statement.run rounds)) machine

variable {rounds} {machine : Machine}

theorem runAll_traced {statements : List Stmt}
    (h : ∀ statement ∈ statements, statement.IsTraced rounds) {outside : Nat}
    (houtside : 0 < outside) (hframes : machine.scopes.frames ≠ []) :
    Traced (Fault.HasOrigin rounds ⟨.list outside statements, machine⟩)
      (runAll rounds outside statements) machine := by
  induction statements generalizing machine with
  | nil =>
    rw [runAll]
    exact .truncate houtside hframes
  | cons statement statements ih =>
    obtain ⟨hstatement, hstatements⟩ := List.forall_mem_cons.1 h
    have hfirst := (hstatement machine hframes).of_starts
      (.first outside statement statements machine)
    rw [runAll]
    refine hfirst.bind fun _ middle hran hmiddle ↦ ?_
    have hstops : Eval.mustStop outside middle =
        (.ok (middle.scopes.depth ≤ outside || middle.leaving), middle) := rfl
    refine Traced.bind (.of_ok hstops hmiddle rfl) fun stop after hstop hafter ↦ ?_
    cases stop with
    | true => exact .pure hafter ()
    | false =>
      obtain rfl : middle = after := congrArg Prod.snd hstop
      exact (ih hstatements hafter).of_starts (.next statements hran hstop)

theorem Stmt.discard_run_block (statements : List Stmt) :
    discard ((Stmt.block statements).run rounds) =
      Eval.inBlock fun outside ↦ runAll rounds outside statements := by
  rw [Stmt.run, discard_eq_bind, bind_assoc]
  exact bind_pure _

theorem Stmt.block_isTraced {statements : List Stmt}
    (h : ∀ statement ∈ statements, statement.IsTraced rounds) :
    (Stmt.block statements).IsTraced rounds := by
  intro machine hframes
  have hlist : Traced (Fault.HasOrigin rounds ⟨.list machine.scopes.depth statements,
      machine.push .block⟩) (runAll rounds machine.scopes.depth statements) (machine.push .block) :=
    runAll_traced h (List.length_pos_iff.2 hframes) (List.cons_ne_nil _ _)
  rw [Stmt.discard_run_block]
  exact (hlist.of_starts (.block statements machine)).of_eq rfl rfl

theorem Eval.loopRound_traced {condition : Fault → Prop} {body : Eval Unit}
    (h : Traced condition body (machine.push .loop)) (hframes : machine.scopes.frames ≠ []) :
    Traced condition (loopRound body) machine := by
  have hround : Traced condition (do body; truncate machine.scopes.depth; takeLeaving)
      (machine.push .loop) := by
    refine h.bind fun _ after _ hafter ↦ ?_
    refine (Traced.truncate (List.length_pos_iff.2 hframes) hafter).bind fun _ last _ hlast ↦ ?_
    exact .of_ok rfl hlast rfl
  exact hround.of_eq rfl rfl

theorem Eval.repeatWhile_traced {leaf : TokenKind → Bool} {condition : Expr} {body : Stmt}
    (hcondition : condition.isWellFormed leaf = true) (hbody : body.IsTraced rounds) (left : Nat)
    (hframes : machine.scopes.frames ≠ []) :
    Traced (Fault.HasOrigin rounds ⟨.loop condition body left, machine⟩)
      (repeatWhile condition.test (discard (body.run rounds)) left) machine := by
  induction left generalizing machine with
  | zero =>
    refine ⟨hframes, fun fault hfault ↦ ?_, fun fault hmem ↦ .inl hmem⟩
    cases hfault
  | succ left ih =>
    rw [repeatWhile]
    refine (Expr.test_traced hcondition hframes).bind fun holds middle htested hmiddle ↦ ?_
    cases holds with
    | false => exact .pure hmiddle ()
    | true =>
      have hround := (hbody (middle.push .loop) (List.cons_ne_nil _ _)).of_starts
        (.round body left htested)
      refine (loopRound_traced hround hmiddle).bind fun stopped after hran hafter ↦ ?_
      cases stopped with
      | true => exact .pure hafter ()
      | false => exact (ih hafter).of_starts (.again left htested hran)

theorem runArm_traced {statements : List Stmt}
    (h : ∀ statement ∈ statements, statement.IsTraced rounds)
    (hframes : machine.scopes.frames ≠ []) :
    Traced (Fault.HasOrigin rounds ⟨.arm statements, machine⟩) (runArm rounds statements)
      machine := by
  induction statements generalizing machine with
  | nil =>
    rw [runArm]
    exact .pure hframes false
  | cons statement statements ih =>
    obtain ⟨hstatement, hstatements⟩ := List.forall_mem_cons.1 h
    have hfirst := (hstatement machine hframes).of_starts (.armFirst statement statements machine)
    rw [runArm]
    refine hfirst.bind fun _ middle hran hmiddle ↦ ?_
    refine Traced.bind (.of_ok rfl hmiddle rfl) fun left after htaken hafter ↦ ?_
    cases left with
    | true => exact .pure hafter true
    | false =>
      exact (ih hstatements hafter).of_starts (.armNext statements hran htaken)

theorem runArms_traced {arms : List (Arm Stmt)}
    (h : ∀ arm ∈ arms, ∀ statement ∈ arm.statements, statement.IsTraced rounds) (skipped : Nat)
    (hframes : machine.scopes.frames ≠ []) :
    Traced (Fault.HasOrigin rounds ⟨.arms skipped arms, machine⟩) (runArms rounds skipped arms)
      machine := by
  induction arms generalizing skipped machine with
  | nil =>
    rw [runArms]
    exact .pure hframes ()
  | cons arm arms ih =>
    obtain ⟨harm, harms⟩ := List.forall_mem_cons.1 h
    cases skipped with
    | succ skipped =>
      rw [runArms]
      exact (ih harms skipped hframes).of_starts (.skip skipped arm arms machine)
    | zero =>
      rw [runArms]
      have hfirst := (runArm_traced harm hframes).of_starts (.arm arm arms machine)
      refine hfirst.bind fun left after hran hafter ↦ ?_
      cases left with
      | true => exact .pure hafter ()
      | false =>
        exact (ih harms 0 hafter).of_starts (.fallThrough arms hran)

theorem Eval.switch_traced {leaf : TokenKind → Bool} {subject : Expr} {arms : List (Arm Stmt)}
    (hsubject : subject.isWellFormed leaf = true)
    (hlabels : ∀ arm ∈ arms, ∀ label ∈ arm.labels, label.isWellFormed leaf = true)
    (h : ∀ arm ∈ arms, ∀ statement ∈ arm.statements, statement.IsTraced rounds)
    (hframes : machine.scopes.frames ≠ []) :
    Traced (Fault.HasOrigin rounds ⟨.statement (.switch subject arms), machine⟩)
      (Eval.switch subject arms fun place ↦ runArms rounds place arms) machine := by
  have hselect : Traced (Fault.HasOrigin rounds ⟨.statement (.switch subject arms), machine⟩)
      (Balanced.select subject arms) (machine.push .switch) :=
    .of_assigns (Balanced.select_assigns subject arms) (Balanced.select_raises hsubject hlabels)
      (List.cons_ne_nil _ _) rounds _
  refine Traced.of_eq ?_ (Unwinding.switch_apply subject arms _ machine) rfl
  refine Traced.bind (hselect.bind fun selected after hselected hafter ↦ ?_)
    fun _ after _ hafter ↦ .truncate (List.length_pos_iff.2 hframes) hafter
  cases selected with
  | none => exact .pure hafter ()
  | some place =>
    exact (runArms_traced h place hafter).of_starts (.switch hselected)

/-- A frame that was just opened can hold any name. -/
theorem Scopes.declare_push (name : String) (value : Value) (kind : FrameKind) (scopes : Scopes) :
    (scopes.push kind).declare name value = .ok ⟨⟨kind, [(name, value)]⟩ :: scopes.frames⟩ := by
  rw [declare, push]
  exact if_neg List.not_mem_nil

/-- Behind a fault the handler is run, with what was caught in a frame of its own. -/
theorem Eval.attempt_eq_handler {body handler : Eval Unit} {binding : String} {after : Machine}
    {fault : Fault} (h : body (machine.push .attempt) = (.error (.fault fault), after)) :
    attempt body binding handler machine = (do handler; truncate machine.scopes.depth : Eval Unit)
      (after.handling machine.scopes.depth binding fault) := by
  rw [Unwinding.attempt_of_fault h, bind_of_ok (tryScopes_of_ok (Scopes.declare_push ..))]
  rfl

theorem Stmt.discard_run_attempt (body : List Stmt) (binding : String) (handler : List Stmt) :
    discard ((Stmt.attempt body binding handler).run rounds) =
      Eval.attempt (discard ((Stmt.block body).run rounds)) binding
        (discard ((Stmt.block handler).run rounds)) := by
  rw [Stmt.discard_run_block, Stmt.discard_run_block, Stmt.run, discard_eq_bind, bind_assoc]
  exact bind_pure _

theorem Eval.attempt_traced {body handler : List Stmt} (binding : String)
    (hbody : (Stmt.block body).IsTraced rounds) (hhandler : (Stmt.block handler).IsTraced rounds)
    (hframes : machine.scopes.frames ≠ []) :
    Traced (Fault.HasOrigin rounds ⟨.statement (.attempt body binding handler), machine⟩)
      (attempt (discard ((Stmt.block body).run rounds)) binding
        (discard ((Stmt.block handler).run rounds))) machine := by
  have hdepth : 0 < machine.scopes.depth := List.length_pos_iff.2 hframes
  obtain ⟨hinner, hraised, hcaught⟩ := (hbody (machine.push .attempt)
    (List.cons_ne_nil _ _)).of_starts (.attempt body binding handler machine)
  rcases hrun : discard ((Stmt.block body).run rounds) (machine.push .attempt) with
    ⟨(fault | _) | _, after⟩ <;> rw [hrun] at hinner hraised hcaught
  · have hhandled := (hhandler _ (List.cons_ne_nil _ _)).of_starts (.rescue binding handler hrun)
    have hlater := hhandled.bind fun _ _ _ hlast ↦ .truncate hdepth hlast
    refine ⟨?_, ?_, ?_⟩ <;> rw [attempt_eq_handler hrun]
    · exact hlater.frames
    · exact hlater.raised
    · intro caught hmem
      rcases hlater.caught caught hmem with hmem | horigin
      · rcases List.mem_cons.1 hmem with rfl | hmem
        · exact .inr (hraised caught rfl)
        · exact hcaught caught hmem
      · exact .inr horigin
  · refine ⟨?_, ?_, ?_⟩ <;> rw [Unwinding.attempt_of_outOfRounds hrun]
    · exact hinner
    · exact hraised
    · exact hcaught
  · have htruncated : Traced (fun _ ↦ True) (truncate machine.scopes.depth) after :=
      .truncate hdepth hinner
    refine ⟨?_, ?_, ?_⟩ <;> rw [Unwinding.attempt_of_ok hrun]
    · exact htruncated.frames
    · intro fault hfault
      cases hfault
    · exact hcaught

theorem Alternative.run_traced {leaf : TokenKind → Bool} {rest : Alternative}
    (hrest : rest.isWellFormed leaf = true)
    (h : ∀ statement ∈ rest.branches, statement.isWellFormed leaf = true →
      statement.IsTraced rounds) (hframes : machine.scopes.frames ≠ []) :
    Traced (Fault.HasOrigin rounds ⟨.alternative rest, machine⟩) (rest.run rounds) machine := by
  induction rest using Alternative.induction generalizing machine with
  | none =>
    rw [Alternative.run]
    exact .pure hframes ()
  | otherwise body =>
    rw [Alternative.isWellFormed, Bool.and_eq_true] at hrest
    rw [Alternative.run]
    exact (h body (List.mem_cons_self ..) hrest.2 machine hframes).of_starts
      (.otherwise body machine)
  | elseWhen condition body rest ih =>
    simp only [Alternative.isWellFormed, Bool.and_eq_true] at hrest
    obtain ⟨⟨⟨⟨hcondition, -⟩, hbody⟩, -⟩, hrest⟩ := hrest
    rw [Alternative.run]
    refine (Expr.test_traced hcondition hframes).bind fun holds after htested hafter ↦ ?_
    cases holds with
    | true =>
      exact (h body (List.mem_cons_self ..) hbody after hafter).of_starts
        (.elseHolds body rest htested)
    | false =>
      exact (ih hrest (fun later hmem ↦ h later (List.mem_cons_of_mem _ hmem)) hafter).of_starts
        (.elseFails body rest htested)

/-- The faults of a well-formed statement have origins in its course. -/
theorem Stmt.isTraced {leaf : TokenKind → Bool} {statement : Stmt}
    (h : statement.isWellFormed leaf = true) : statement.IsTraced rounds := by
  induction statement using Stmt.induction with
  | expression value =>
    intro machine hframes
    rw [Stmt.run]
    exact (Expr.eval_traced h hframes).discard
  | declare name value =>
    intro machine hframes
    cases value with
    | none =>
      rw [Stmt.run]
      refine Traced.discard ?_
      exact (Eval.declare_traced name .null hframes rounds _).bind fun _ _ _ hlast ↦ .pure hlast _
    | some value =>
      rw [Stmt.isWellFormed, Bool.and_eq_true] at h
      rw [Stmt.run]
      refine Traced.discard ?_
      refine (Expr.eval_traced h.2 hframes).bind
        fun result after _ hafter ↦ ?_
      exact (Eval.declare_traced name result hafter rounds _).bind fun _ _ _ hlast ↦ .pure hlast _
  | block statements ih =>
    rw [Stmt.isWellFormed, Stmt.areWellFormed_iff] at h
    exact Stmt.block_isTraced fun statement hmem ↦ ih statement hmem (h statement hmem)
  | when condition body rest ihbody ihrest =>
    intro machine hframes
    simp only [Stmt.isWellFormed, Bool.and_eq_true] at h
    obtain ⟨⟨⟨⟨hcondition, -⟩, hbody⟩, -⟩, hrest⟩ := h
    rw [Stmt.run]
    refine Traced.discard ?_
    refine (Expr.test_traced hcondition hframes).bind fun holds after htested hafter ↦ ?_
    cases holds with
    | true =>
      have hbranch := (ihbody hbody after hafter).of_starts (.holds body rest htested)
      exact hbranch.bind fun _ _ _ hlast ↦ .pure hlast _
    | false =>
      have hothers := (Alternative.run_traced hrest ihrest hafter).of_starts
        (.fails body rest htested)
      exact hothers.bind fun _ _ _ hlast ↦ .pure hlast _
  | loop condition body ih =>
    intro machine hframes
    simp only [Stmt.isWellFormed, Bool.and_eq_true] at h
    rw [Stmt.run]
    refine Traced.discard (Traced.bind ?_ fun _ _ _ hlast ↦ .pure hlast _)
    exact (Eval.repeatWhile_traced h.1.1 (ih h.2) rounds hframes).of_starts
      (.loop condition body machine)
  | switch subject arms ih =>
    intro machine hframes
    simp only [Stmt.isWellFormed, Bool.and_eq_true] at h
    obtain ⟨⟨⟨hsubject, harms⟩, -⟩, -⟩ := h
    rw [armsAreWellFormed_iff] at harms
    simp only [Arm.isWellFormed, Bool.and_eq_true] at harms
    rw [Stmt.run]
    refine Traced.discard (Traced.bind ?_ fun _ _ _ hlast ↦ .pure hlast _)
    refine Eval.switch_traced hsubject (fun arm harm ↦ ?_) (fun arm harm statement hmem ↦ ?_)
      hframes
    · exact Expr.areWellFormed_iff.1 (harms arm harm).1.1.2
    · exact ih arm harm statement hmem (Stmt.areWellFormed_iff.1 (harms arm harm).2 statement hmem)
  | leave =>
    intro machine hframes
    rw [Stmt.run]
    refine Traced.discard ?_
    exact (Eval.leave_traced hframes rounds _).bind fun _ _ _ hlast ↦ .pure hlast _
  | attempt body binding handler ihbody ihhandler =>
    intro machine hframes
    simp only [Stmt.isWellFormed, Bool.and_eq_true, Stmt.areWellFormed_iff] at h
    obtain ⟨⟨hbody, -⟩, hhandler⟩ := h
    rw [Stmt.discard_run_attempt]
    exact Eval.attempt_traced binding
      (Stmt.block_isTraced fun statement hmem ↦ ihbody statement hmem (hbody statement hmem))
      (Stmt.block_isTraced fun statement hmem ↦ ihhandler statement hmem (hhandler statement hmem))
      hframes
  | throw value =>
    intro machine hframes
    rw [Stmt.run]
    refine Traced.discard ?_
    refine (Expr.eval_traced h hframes).bind
      fun result after hvalue hafter ↦ ?_
    exact .of_fault rfl hafter rfl ⟨value, machine, result, after, .refl, hvalue, rfl⟩
  | print value =>
    intro machine hframes
    rw [Stmt.run]
    refine Traced.discard ?_
    refine (Expr.eval_traced h hframes).bind
      fun result after hvalue hafter ↦ ?_
    refine Traced.bind ?_ fun _ _ _ hlast ↦ .pure hlast _
    have hprint := Eval.print_apply result.display after
    have houtput := (value.eval_assigns machine).output
    rw [hvalue] at houtput
    cases hrefusal : (after.output.print result.display).1.refusal with
    | none =>
      rw [hrefusal] at hprint
      exact .of_ok hprint hafter rfl
    | some message =>
      rw [hrefusal] at hprint
      refine .of_fault hprint hafter rfl ⟨value, machine, result, after, .refl, hvalue, ?_⟩
      change machine.output.sink after.output.calls result.display = some message
      rw [← houtput]
      exact hrefusal

end Statements

/-! ## Programs -/

/-- An operator that has no rule for the types of its operands. -/
def Fault.IsOfOperator : Fault → Prop
  | .unsupportedOperands .. | .unsupportedOperand .. => True
  | _ => False

theorem Fault.HasOrigin.isOfOperator {rounds : Nat} {start : Point} {fault : Fault}
    (h : fault.HasOrigin rounds start) (hinternal : fault.toClass = .internal) :
    fault.IsOfOperator := by
  cases fault <;> first | exact trivial | exact False.elim h | cases hinternal

theorem runProgram_traced {leaf : TokenKind → Bool} {program : List Stmt}
    (h : Stmt.areWellFormed leaf program = true) (rounds : Nat) (sink : Sink) :
    Traced (Fault.HasOrigin rounds ⟨.statement (.block program), .ofSink sink⟩)
      (runProgram rounds program) (.ofSink sink) := by
  have hprogram : (Stmt.block program).IsTraced rounds := Stmt.isTraced h
  rw [runProgram, ← Stmt.discard_run_block]
  exact hprogram _ (List.cons_ne_nil _ _)

/-- Whatever a text runs, every fault that ends the run or is caught in it was thrown by a statement
that was run, was the sink's answer to a line that was printed, or is a fault of scoping or of an
operator. A handler always gets the name it gives to what was caught. -/
theorem run_faults_have_origins (source : String) (rounds : Nat) (colors : Option Painter)
    (sink : Sink) :
    match (parse colors source).report with
    | some report => run rounds colors sink source = (.error (.unparsed report), .ofSink sink)
    | none =>
      let start : Point := ⟨.statement (.block (parse colors source).body), .ofSink sink⟩
      let ended := runProgram rounds (parse colors source).body (.ofSink sink)
      run rounds colors sink source = (ended.1.mapError .halted, ended.2.output) ∧
      (∀ fault, ended.1 = .error (.fault fault) ∨ fault ∈ ended.2.caught →
        fault.HasOrigin rounds start ∧ fault ≠ .brokenProgram ∧ fault ≠ .noFrame ∧
          (fault.toClass = .internal → fault.IsOfOperator)) ∧
      ∀ body binding handler machine after fault,
        Executes rounds start ⟨.statement (.attempt body binding handler), machine⟩ →
        discard ((Stmt.block body).run rounds) (machine.push .attempt) =
          (.error (.fault fault), after) →
        discard ((Stmt.attempt body binding handler).run rounds) machine =
          (do
            discard ((Stmt.block handler).run rounds)
            Eval.truncate machine.scopes.depth : Eval Unit)
            (after.handling machine.scopes.depth binding fault) := by
  cases hreport : (parse colors source).report with
  | some report => exact run_of_report hreport rounds sink
  | none =>
    have hclean := (report_parse_eq_none_iff colors source).1 hreport
    have htraced := runProgram_traced ((parse_shape colors source).2 hclean) rounds sink
    refine ⟨run_of_report_eq_none hreport rounds sink, fun fault hfault ↦ ?_, ?_⟩
    · have horigin : fault.HasOrigin rounds
          ⟨.statement (.block (parse colors source).body), .ofSink sink⟩ := by
        rcases hfault with hraised | hcaught
        · exact htraced.raised fault hraised
        · exact (htraced.caught fault hcaught).resolve_left List.not_mem_nil
      refine ⟨horigin, ?_, ?_, horigin.isOfOperator⟩
      · exact fun hbroken ↦ by rw [hbroken] at horigin; exact horigin
      · exact fun hnoFrame ↦ by rw [hnoFrame] at horigin; exact horigin
    · intro body binding handler machine after fault _ hfailed
      rw [Stmt.discard_run_attempt, Eval.attempt_eq_handler hfailed]

/-- A handler that prints what it caught. -/
def printingHandler : String :=
  "sus \x7b yeet 'a'; \x7d cringe (e) \x7b alpha e; \x7d"

/-- What the handler caught was thrown, and what ends the run is that its line was refused. -/
theorem printingHandler_origins :
    let sink := Sink.refusing (fun _ ↦ true) "full"
    let start : Point := ⟨.statement (.block (parse none printingHandler).body), .ofSink sink⟩
    let ended := runProgram 1 (parse none printingHandler).body (.ofSink sink)
    ended.1 = .error (.fault (.output "full")) ∧ ended.2.caught = [.thrown "a"] ∧
      (Fault.output "full").HasOrigin 1 start ∧ (Fault.thrown "a").HasOrigin 1 start := by
  have hclean : (parse none printingHandler).diagnostics = [] := by rfl
  have hbody : (parse none printingHandler).body =
      [.attempt [.throw (.string "a")] "e" [.print (.identifier "e")]] := by rfl
  have hreport := (report_parse_eq_none_iff none printingHandler).2 hclean
  have horigins := run_faults_have_origins printingHandler 1 none
    (Sink.refusing (fun _ ↦ true) "full")
  rw [hreport, hbody] at horigins
  obtain ⟨-, horigins, -⟩ := horigins
  rw [hbody]
  exact ⟨rfl, rfl, (horigins _ (.inl rfl)).1, (horigins _ (.inr (List.mem_singleton.2 rfl))).1⟩

end Slang
