import Slang.Proofs.Effects
import Slang.Proofs.TreeInduction

/-!
# Balanced runs

The same statements as `Stmt.run` runs, on the same machines, with every frame dropped by the
construct that pushed it. A `dip` is an exit here: it takes no frames away and sets no mark, it only
needs a frame to stop at. Whichever way a statement ends, the frames it found are still there.
-/

namespace Slang

open Stateful Structured

namespace Balanced

variable {Result : Type}

def ofEval (computation : Eval Result) : Structured Machine Result := fun machine ↦
  ((computation machine).1.mapError .halt, (computation machine).2)

/-- Runs a body in a frame of its own. -/
def within (kind : FrameKind) (body : Structured Machine Result) : Structured Machine Result :=
  fun machine ↦
    let ending := body (machine.withScopes (machine.scopes.push kind))
    (ending.1, ending.2.withScopes (ending.2.scopes.truncate machine.scopes.depth))

/-- Leaves for the nearest frame of a loop, switch or attempt. -/
def leave : Structured Machine Unit := fun machine ↦
  match machine.scopes.unwind? with
  | some _ => (.error .leave, machine)
  | none => (.error (.halt (.fault .strayLeave)), machine)

/-- Runs a body and, if it fails, a handler with the fault's wording in a variable. -/
def attempt (body : Structured Machine Unit) (binding : String)
    (handler : Structured Machine Unit) : Structured Machine Unit := fun machine ↦
  match within .attempt body machine with
  | (.ok (), after) => (.ok (), after)
  | (.error .leave, after) =>
    if after.scopes.isBreakable then (.error .leave, after) else (.ok (), after)
  | (.error (.halt .outOfRounds), after) => (.error (.halt .outOfRounds), after)
  | (.error (.halt (.fault fault)), after) =>
    within .block (do
      ofEval (Eval.tryScopes (Scopes.declare binding (.text fault.message)))
      handler) ⟨after.scopes, after.leaving, after.output, fault :: after.caught⟩

/-- The arm that a switch selects, if there is one. -/
def select (subject : Expr) (arms : List (Arm Stmt)) : Eval (Option Nat) := do
  Eval.selectArm (← subject.eval) arms 0 none

/-- Selects an arm and runs the arms from there on, until a `dip` or the last. -/
def switch (subject : Expr) (arms : List (Arm Stmt)) (runFrom : Nat → Structured Machine Unit) :
    Structured Machine Unit :=
  discard (stopping (within .switch do
    let place ← ofEval (select subject arms)
    place.elim (return ()) runFrom))

mutual

def runStmt (rounds : Nat) : Stmt → Structured Machine Value
  | .expression value => ofEval value.eval
  | .declare name none => ofEval do
    Eval.tryScopes (Scopes.declare name .null)
    return .null
  | .declare name (some value) => ofEval do
    Eval.tryScopes (Scopes.declare name (← value.eval))
    return .null
  | .block statements => do
    within .block (runAll rounds statements)
    return .null
  | .when condition body rest => do
    if ← ofEval condition.test then discard (runStmt rounds body) else runAlternative rounds rest
    return .null
  | .loop condition body => do
    repeatWhile (ofEval condition.test) (within .loop (discard (runStmt rounds body))) rounds
    return .null
  | .switch subject arms => do
    switch subject arms fun place ↦ runArms rounds place arms
    return .null
  | .leave => do
    leave
    return .null
  | .attempt body binding handler => do
    attempt (within .block (runAll rounds body)) binding (within .block (runAll rounds handler))
    return .null
  | .throw value => ofEval do
    Eval.fail (.thrown (← value.eval).display)
  | .print value => ofEval do
    Eval.print (← value.eval).display
    return .null

def runAlternative (rounds : Nat) : Alternative → Structured Machine Unit
  | .none => return ()
  | .otherwise body => discard (runStmt rounds body)
  | .elseWhen condition body rest => do
    if ← ofEval condition.test then discard (runStmt rounds body) else runAlternative rounds rest

def runAll (rounds : Nat) : List Stmt → Structured Machine Unit
  | [] => return ()
  | statement :: statements => do
    discard (runStmt rounds statement)
    runAll rounds statements

/-- Runs arms in turn behind the first `skipped` ones. -/
def runArms (rounds : Nat) : Nat → List (Arm Stmt) → Structured Machine Unit
  | _, [] => return ()
  | skipped + 1, _ :: arms => runArms rounds skipped arms
  | 0, ⟨_, _, statements⟩ :: arms => do
    runAll rounds statements
    runArms rounds 0 arms

end

/-! ## What a balanced run keeps -/

theorem ofEval_preserves {relation : Machine → Machine → Prop} {computation : Eval Result}
    (h : Preserves relation computation) : Preserves relation (ofEval computation) :=
  h

theorem ofEval_keeps {computation : Eval Result} (h : Preserves Machine.Assigns computation) :
    Preserves Machine.Keeps (ofEval computation) :=
  ofEval_preserves (h.mono fun _ _ hassigns ↦ hassigns.keeps)

/-- A body in a frame of its own ends with that frame on top of those outside, which have the
shapes they had. -/
theorem exists_within {body : Structured Machine Result} (h : Preserves Machine.Keeps body)
    (kind : FrameKind) (machine : Machine) :
    ∃ ending after frame outer,
      body (machine.withScopes (machine.scopes.push kind)) = (ending, after) ∧
      after.scopes.frames = frame :: outer ∧ frame.kind = kind ∧
      Frames.shapes outer = Frames.shapes machine.scopes.frames ∧
      after.leaving = machine.leaving ∧
      within kind body machine = (ending, after.withScopes ⟨outer⟩) := by
  have hkeeps := h (machine.withScopes (machine.scopes.push kind))
  obtain ⟨frame, outer, hframes, hkind, -, houter⟩ := hkeeps.frames
  refine ⟨_, _, frame, outer, rfl, hframes, hkind, houter, hkeeps.leaving, ?_⟩
  have htruncate := Frames.truncate_append [frame] outer
  rw [Frames.length_eq_of_shapes_eq houter, List.singleton_append, ← hframes] at htruncate
  exact Prod.ext rfl (congrArg (Machine.withScopes · _) htruncate)

/-- A body in a frame of its own adds no names to the frames outside. -/
theorem within_shapes {body : Structured Machine Result} (h : Preserves Machine.Keeps body)
    (kind : FrameKind) (machine : Machine) :
    Frames.shapes (within kind body machine).2.scopes.frames =
      Frames.shapes machine.scopes.frames := by
  obtain ⟨ending, after, frame, outer, -, -, -, houter, -, hwithin⟩ := exists_within h kind machine
  rw [hwithin]
  exact houter

theorem within_keeps {body : Structured Machine Result} (h : Preserves Machine.Keeps body)
    (kind : FrameKind) : Preserves Machine.Keeps (within kind body) := by
  intro machine
  refine ⟨Frames.grows_of_shapes_eq (within_shapes h kind machine), ?_⟩
  exact (h (machine.withScopes (machine.scopes.push kind))).leaving

theorem leave_keeps : Preserves Machine.Keeps leave := by
  intro machine
  unfold leave
  split <;> exact refl_of _ machine

theorem attempt_keeps {body handler : Structured Machine Unit} (binding : String)
    (hbody : Preserves Machine.Keeps body) (hhandler : Preserves Machine.Keeps handler) :
    Preserves Machine.Keeps (attempt body binding handler) := by
  intro machine
  have hattempt := within_keeps hbody .attempt machine
  unfold attempt
  split <;> rename_i hrun <;> rw [hrun] at hattempt
  · exact hattempt
  · split <;> exact hattempt
  · exact hattempt
  · rename_i fault after
    have hrescue : Preserves Machine.Keeps (do
        ofEval (Eval.tryScopes (Scopes.declare binding (.text fault.message)))
        handler) :=
      (ofEval_preserves (Eval.declare_keeps _ _)).bind fun _ ↦ hhandler
    have hnoted : Machine.Keeps machine
        ⟨after.scopes, after.leaving, after.output, fault :: after.caught⟩ :=
      ⟨hattempt.frames, hattempt.leaving⟩
    exact trans_of Machine.Keeps hnoted (within_keeps hrescue .block _)

theorem select_keeps (subject : Expr) (arms : List (Arm Stmt)) :
    Preserves Machine.Keeps (select subject arms) :=
  (subject.eval_assigns.bind fun value ↦ Eval.selectArm_assigns value arms 0 none).mono
    fun _ _ hassigns ↦ hassigns.keeps

theorem selected_keeps (subject : Expr) (arms : List (Arm Stmt))
    {runFrom : Nat → Structured Machine Unit}
    (h : ∀ place, Preserves Machine.Keeps (runFrom place)) :
    Preserves Machine.Keeps (do
      let place ← ofEval (select subject arms)
      place.elim (return ()) runFrom) := by
  refine (ofEval_preserves (select_keeps subject arms)).bind fun place ↦ ?_
  cases place with
  | none => exact .pure _
  | some place => exact h place

theorem switch_keeps (subject : Expr) (arms : List (Arm Stmt))
    {runFrom : Nat → Structured Machine Unit}
    (h : ∀ place, Preserves Machine.Keeps (runFrom place)) :
    Preserves Machine.Keeps (switch subject arms runFrom) :=
  (stopping_preserves (within_keeps (selected_keeps subject arms h) .switch)).discard

section Programs

variable (rounds : Nat)

theorem runAll_keeps {statements : List Stmt}
    (h : ∀ statement ∈ statements, Preserves Machine.Keeps (runStmt rounds statement)) :
    Preserves Machine.Keeps (runAll rounds statements) := by
  induction statements with
  | nil => exact .pure _
  | cons statement statements ih =>
    rw [runAll]
    refine (h statement (List.mem_cons_self ..)).discard.bind fun _ ↦ ?_
    exact ih fun later hmem ↦ h later (List.mem_cons_of_mem _ hmem)

theorem runArms_keeps {arms : List (Arm Stmt)}
    (h : ∀ arm ∈ arms, ∀ statement ∈ arm.statements,
      Preserves Machine.Keeps (runStmt rounds statement)) (skipped : Nat) :
    Preserves Machine.Keeps (runArms rounds skipped arms) := by
  induction arms generalizing skipped with
  | nil =>
    rw [runArms]
    exact .pure _
  | cons arm arms ih =>
    have hlater := ih fun later hmem ↦ h later (List.mem_cons_of_mem _ hmem)
    cases skipped with
    | succ skipped =>
      rw [runArms]
      exact hlater skipped
    | zero =>
      rw [runArms]
      exact (runAll_keeps rounds (h arm (List.mem_cons_self ..))).bind fun _ ↦ hlater 0

theorem runAlternative_keeps {alternative : Alternative}
    (h : ∀ statement ∈ alternative.branches, Preserves Machine.Keeps (runStmt rounds statement)) :
    Preserves Machine.Keeps (runAlternative rounds alternative) := by
  induction alternative using Alternative.induction with
  | none =>
    rw [runAlternative]
    exact .pure _
  | otherwise body =>
    rw [runAlternative]
    exact (h body (List.mem_cons_self ..)).discard
  | elseWhen condition body rest ih =>
    rw [runAlternative]
    refine (ofEval_keeps condition.test_assigns).bind fun holds ↦ ?_
    split
    · exact (h body (List.mem_cons_self ..)).discard
    · exact ih fun later hmem ↦ h later (List.mem_cons_of_mem _ hmem)

/-- However a statement ends, the frames it found are still there. -/
theorem runStmt_keeps (statement : Stmt) : Preserves Machine.Keeps (runStmt rounds statement) := by
  induction statement using Stmt.induction with
  | expression value => exact ofEval_keeps value.eval_assigns
  | declare name value =>
    cases value with
    | none => exact ofEval_preserves ((Eval.declare_keeps name .null).bind fun _ ↦ .pure _)
    | some value =>
      refine ofEval_preserves (value.eval_keeps.bind fun result ↦ ?_)
      exact (Eval.declare_keeps name result).bind fun _ ↦ .pure _
  | block statements ih =>
    rw [runStmt]
    exact (within_keeps (runAll_keeps rounds ih) .block).bind fun _ ↦ .pure _
  | when condition body rest ihbody ihrest =>
    rw [runStmt]
    refine (ofEval_keeps condition.test_assigns).bind fun holds ↦ ?_
    split
    · exact ihbody.discard.bind fun _ ↦ .pure _
    · exact (runAlternative_keeps rounds ihrest).bind fun _ ↦ .pure _
  | loop condition body ih =>
    rw [runStmt]
    refine Preserves.bind ?_ fun _ ↦ .pure _
    exact repeatWhile_preserves (ofEval_keeps condition.test_assigns)
      (within_keeps ih.discard .loop) rounds
  | switch subject arms ih =>
    rw [runStmt]
    exact (switch_keeps subject arms (runArms_keeps rounds ih)).bind fun _ ↦ .pure _
  | leave =>
    rw [runStmt]
    exact leave_keeps.bind fun _ ↦ .pure _
  | attempt body binding handler ihbody ihhandler =>
    rw [runStmt]
    refine (attempt_keeps binding ?_ ?_).bind fun _ ↦ .pure _
    · exact within_keeps (runAll_keeps rounds ihbody) .block
    · exact within_keeps (runAll_keeps rounds ihhandler) .block
  | throw value =>
    refine ofEval_preserves (value.eval_keeps.bind fun result ↦ ?_)
    exact fun machine ↦ refl_of _ machine
  | print value =>
    refine ofEval_preserves (value.eval_keeps.bind fun result ↦ ?_)
    exact (Eval.print_keeps _).bind fun _ ↦ .pure _

theorem body_keeps (statements : List Stmt) :
    Preserves Machine.Keeps (within .block (runAll rounds statements)) :=
  within_keeps (runAll_keeps rounds fun statement _ ↦ runStmt_keeps rounds statement) .block

theorem body_shapes (statements : List Stmt) (machine : Machine) :
    Frames.shapes (within .block (runAll rounds statements) machine).2.scopes.frames =
      Frames.shapes machine.scopes.frames :=
  within_shapes (runAll_keeps rounds fun statement _ ↦ runStmt_keeps rounds statement) .block
    machine

end Programs

end Balanced

end Slang
