import Slang.Proofs.Sessions

/-!
# What a statement can see

A statement sees what its variables stand for, which names the innermost frame holds, whether a
`dip` has a frame to stop at, and whether a loop or switch is among the frames. Nothing else about
the frames shows: neither how many there are, nor which of them holds a variable, nor what a
variable hides.

Frames that a statement pushes itself are the same on both machines that are compared, so only the
frames below them are compared by what can be seen of them.
-/

namespace Slang

open Stateful Structured

namespace Frames

/-! ## What can be seen of a stack of frames -/

/-- The names that cannot be declared. -/
def innermost : List Frame → List String
  | [] => []
  | frame :: _ => frame.names

/-- The same can be seen of two stacks, neither of which is empty. -/
structure SameView (first second : List Frame) : Prop where
  nonempty : first ≠ [] ∧ second ≠ []
  get? : ∀ name, Scopes.get? name ⟨first⟩ = Scopes.get? name ⟨second⟩
  innermost : ∀ name, name ∈ innermost first ↔ name ∈ innermost second
  hasTarget : HasTarget first ↔ HasTarget second
  isBreakable : Scopes.isBreakable ⟨first⟩ = Scopes.isBreakable ⟨second⟩

theorem get?_cons (name : String) (frame : Frame) (outer : List Frame) :
    Scopes.get? name ⟨frame :: outer⟩ = (frame.get? name).or (Scopes.get? name ⟨outer⟩) := by
  rw [Scopes.get?, List.findSome?_cons]
  cases frame.get? name <;> rfl

theorem get?_eq_none_of_not_mem {name : String} {frame : Frame} (h : name ∉ frame.names) :
    frame.get? name = none := by
  rw [Frame.mem_names_iff] at h
  simpa using h

theorem updateFirst?_eq_none_iff (name : String) (value : Value) (frames : List Frame) :
    Scopes.updateFirst? name value frames = none ↔ Scopes.get? name ⟨frames⟩ = none := by
  induction frames with
  | nil => simp [Scopes.updateFirst?, Scopes.get?]
  | cons frame outer ih =>
    rw [Scopes.updateFirst?, get?_cons]
    by_cases hmem : name ∈ frame.names
    · obtain ⟨old, hold⟩ := Option.isSome_iff_exists.1 ((frame.mem_names_iff name).1 hmem)
      simp [hmem, hold]
    · simp [hmem, get?_eq_none_of_not_mem hmem, ih]

/-- An assignment shows in the variable that it is about, and nowhere else. -/
theorem get?_updateFirst? {name : String} {value : Value} {before after : List Frame}
    (h : Scopes.updateFirst? name value before = some after) :
    (Scopes.get? · ⟨after⟩) = Function.update (Scopes.get? · ⟨before⟩) name (some value) := by
  funext other
  rw [Function.update_apply]
  induction before generalizing after with
  | nil => cases h
  | cons frame outer ih =>
    rw [Scopes.updateFirst?] at h
    split at h
    · rename_i hmem
      obtain rfl := Option.some.inj h
      have hframe := congrFun (Frame.get?_update value hmem) other
      rw [Function.update_apply] at hframe
      rw [get?_cons, get?_cons, hframe]
      split <;> rfl
    · rename_i hmem
      obtain ⟨later, hlater, rfl⟩ := Option.map_eq_some_iff.1 h
      rw [get?_cons, get?_cons, ih hlater]
      split
      · rename_i hname
        rw [hname, get?_eq_none_of_not_mem hmem]
        rfl
      · rfl

theorem isBreakable_eq_kinds (frames : List Frame) :
    Scopes.isBreakable ⟨frames⟩ = (kinds frames).any FrameKind.isBreakable := by
  rw [kinds, List.any_map]
  rfl

theorem innermost_eq_of_shapes_eq {before after : List Frame} (h : shapes after = shapes before) :
    innermost after = innermost before := by
  have hinnermost (frames : List Frame) :
      innermost frames = (shapes frames).head?.elim [] Prod.snd := by
    cases frames <;> rfl
  rw [hinnermost, hinnermost, h]

namespace SameView

variable {first second first' second' : List Frame}

/-- Frames that only get other values still look the same if their variables do. -/
theorem of_shapes (h : SameView first second) (hshapes : shapes first' = shapes first)
    (hshapes' : shapes second' = shapes second)
    (hget : ∀ name, Scopes.get? name ⟨first'⟩ = Scopes.get? name ⟨second'⟩) :
    SameView first' second' := by
  have hkinds := kinds_eq_of_shapes_eq hshapes
  have hkinds' := kinds_eq_of_shapes_eq hshapes'
  refine ⟨⟨?_, ?_⟩, hget, ?_, ?_, ?_⟩
  · rintro rfl
    exact h.nonempty.1 (List.map_eq_nil_iff.1 hshapes.symm)
  · rintro rfl
    exact h.nonempty.2 (List.map_eq_nil_iff.1 hshapes'.symm)
  · rw [innermost_eq_of_shapes_eq hshapes, innermost_eq_of_shapes_eq hshapes']
    exact h.innermost
  · rw [hasTarget_iff_of_kinds_eq hkinds, hasTarget_iff_of_kinds_eq hkinds', h.hasTarget]
  · rw [isBreakable_eq_kinds, isBreakable_eq_kinds, hkinds, hkinds', ← isBreakable_eq_kinds,
      ← isBreakable_eq_kinds, h.isBreakable]

theorem insert {frame frame' : Frame} {outer outer' : List Frame}
    (h : SameView (frame :: outer) (frame' :: outer')) (name : String) (value : Value) :
    SameView (frame.insert name value :: outer) (frame'.insert name value :: outer') := by
  have hkinds (frame : Frame) (outer : List Frame) :
      kinds (frame.insert name value :: outer) = kinds (frame :: outer) := rfl
  refine ⟨⟨List.cons_ne_nil _ _, List.cons_ne_nil _ _⟩, fun other ↦ ?_, fun other ↦ ?_, ?_, ?_⟩
  · have hinsert (frame : Frame) := congrFun (Frame.get?_insert name value frame) other
    have hget := h.get? other
    simp only [Function.update_apply] at hinsert
    rw [get?_cons, get?_cons] at hget ⊢
    rw [hinsert, hinsert]
    split
    · rfl
    · exact hget
  · have hnames := h.innermost other
    simp only [Frames.innermost, Frame.names_insert, List.mem_cons] at hnames ⊢
    rw [hnames]
  · rw [hasTarget_iff_of_kinds_eq (hkinds frame outer),
      hasTarget_iff_of_kinds_eq (hkinds frame' outer'), h.hasTarget]
  · exact h.isBreakable

end SameView

/-! ## Frames on top of such stacks -/

/-- The innermost `depth` frames of two stacks are equal, and the frames below them look the
same. -/
inductive Indistinct : Nat → List Frame → List Frame → Prop
  | base {first second : List Frame} (view : SameView first second) : Indistinct 0 first second
  | push (frame : Frame) {depth : Nat} {first second : List Frame}
      (outer : Indistinct depth first second) :
    Indistinct (depth + 1) (frame :: first) (frame :: second)

/-- Two attempts to change frames: both succeed, and the frames stay indistinct, or both fail with
the same fault. -/
inductive ChangesAlike (depth : Nat) : Except Fault Scopes → Except Fault Scopes → Prop
  | ok {first second : List Frame} (frames : Indistinct depth first second) :
    ChangesAlike depth (.ok ⟨first⟩) (.ok ⟨second⟩)
  | error (fault : Fault) : ChangesAlike depth (.error fault) (.error fault)

namespace Indistinct

variable {depth : Nat} {first second : List Frame}

theorem get?_eq (h : Indistinct depth first second) (name : String) :
    Scopes.get? name ⟨first⟩ = Scopes.get? name ⟨second⟩ := by
  induction h with
  | base view => exact view.get? name
  | push frame outer ih => rw [get?_cons, get?_cons, ih]

theorem hasTarget_iff (h : Indistinct depth first second) : HasTarget first ↔ HasTarget second := by
  induction h with
  | base view => exact view.hasTarget
  | push frame outer ih =>
    simp only [HasTarget, List.mem_cons, or_and_right, exists_or] at ih ⊢
    rw [ih]

theorem isBreakable_eq (h : Indistinct depth first second) :
    Scopes.isBreakable ⟨first⟩ = Scopes.isBreakable ⟨second⟩ := by
  induction h with
  | base view => exact view.isBreakable
  | push frame outer ih => exact congrArg (frame.kind.isBreakable || ·) ih

theorem pop {frame frame' : Frame}
    (h : Indistinct (depth + 1) (frame :: first) (frame' :: second)) :
    Indistinct depth first second := by
  cases h with
  | push frame outer => exact outer

theorem assign (h : Indistinct depth first second) (name : String) (value : Value) :
    ChangesAlike depth (Scopes.assign name value ⟨first⟩) (Scopes.assign name value ⟨second⟩) := by
  induction h with
  | @base first second view =>
    cases hfirst : Scopes.updateFirst? name value first with
    | none =>
      have hsecond : Scopes.updateFirst? name value second = none := by
        rw [updateFirst?_eq_none_iff, ← view.get?, ← updateFirst?_eq_none_iff name value, hfirst]
      rw [Scopes.assign, Scopes.assign, hfirst, hsecond]
      exact .error _
    | some first' =>
      have hsome : Scopes.updateFirst? name value second ≠ none := by
        rw [ne_eq, updateFirst?_eq_none_iff, ← view.get?, ← updateFirst?_eq_none_iff name value,
          hfirst]
        simp
      obtain ⟨second', hsecond⟩ := Option.ne_none_iff_exists'.1 hsome
      rw [Scopes.assign, Scopes.assign, hfirst, hsecond]
      apply ChangesAlike.ok
      apply Indistinct.base
      apply view.of_shapes (shapes_updateFirst? hfirst) (shapes_updateFirst? hsecond)
      apply congrFun
      rw [get?_updateFirst? hfirst, get?_updateFirst? hsecond, funext view.get?]
  | @push frame depth first second outer ih =>
    by_cases hmem : name ∈ frame.names
    · simp only [Scopes.assign, Scopes.updateFirst?, if_pos hmem]
      exact .ok (.push _ outer)
    · rw [Scopes.assign_of_not_mem hmem, Scopes.assign_of_not_mem hmem]
      generalize Scopes.assign name value ⟨first⟩ = assigned at ih ⊢
      generalize Scopes.assign name value ⟨second⟩ = assigned' at ih ⊢
      cases ih with
      | ok frames => exact .ok (.push frame frames)
      | error fault => exact .error fault

theorem declare (h : Indistinct depth first second) (name : String) (value : Value) :
    ChangesAlike depth (Scopes.declare name value ⟨first⟩)
      (Scopes.declare name value ⟨second⟩) := by
  cases h with
  | base view =>
    obtain ⟨frame, outer, rfl⟩ := List.exists_cons_of_ne_nil view.nonempty.1
    obtain ⟨frame', outer', rfl⟩ := List.exists_cons_of_ne_nil view.nonempty.2
    have hnames : name ∈ frame.names ↔ name ∈ frame'.names := view.innermost name
    simp only [Scopes.declare, hnames]
    split
    · exact .error _
    · exact .ok (.base (view.insert name value))
  | push frame outer =>
    simp only [Scopes.declare]
    split
    · exact .error _
    · exact .ok (.push _ outer)

end Indistinct

end Frames

/-! ## Machines -/

/-- Two machines have frames that are indistinct, and have made the same calls to sinks that answer
in the same way, since they had made the calls `past` and `past'`. -/
structure Machine.Alike (depth : Nat) (past past' : List PrintCall) (first second : Machine) :
    Prop where
  frames : Frames.Indistinct depth first.scopes.frames second.scopes.frames
  output : ∃ recent, first.output.Continues past recent ∧ second.output.Continues past' recent

namespace Machine.Alike

open Slang.Balanced (ofEval within)

variable {depth : Nat} {past past' : List PrintCall} {Result : Type}

theorem ofEval_simulates {computation : Eval Result}
    (h : Simulates (Alike depth past past') computation computation) :
    Simulates (Alike depth past past') (ofEval computation) (ofEval computation) := by
  intro first second halike
  obtain ⟨hending, hafter⟩ := h first second halike
  exact ⟨congrArg (Except.mapError Exit.halt) hending, hafter⟩

theorem lookup_simulates (name : String) :
    Simulates (Alike depth past past') (Eval.lookup name) (Eval.lookup name) := by
  intro first second halike
  have hvalue : first.scopes.get? name = second.scopes.get? name := halike.frames.get?_eq name
  cases hsecond : second.scopes.get? name with
  | none =>
    rw [Eval.lookup_of_none (hvalue.trans hsecond), Eval.lookup_of_none hsecond]
    exact ⟨rfl, halike⟩
  | some value =>
    rw [Eval.lookup_of_some (hvalue.trans hsecond), Eval.lookup_of_some hsecond]
    exact ⟨rfl, halike⟩

theorem tryScopes_simulates {change : Scopes → Except Fault Scopes}
    (h : ∀ {first second : List Frame}, Frames.Indistinct depth first second →
      Frames.ChangesAlike depth (change ⟨first⟩) (change ⟨second⟩)) :
    Simulates (Alike depth past past') (Eval.tryScopes change) (Eval.tryScopes change) := by
  intro first second halike
  have hchange : Frames.ChangesAlike depth (change first.scopes) (change second.scopes) :=
    h halike.frames
  generalize hfirst : change first.scopes = outcome at hchange
  generalize hsecond : change second.scopes = outcome' at hchange
  cases hchange with
  | ok frames =>
    rw [Eval.tryScopes_of_ok hfirst, Eval.tryScopes_of_ok hsecond]
    exact ⟨rfl, frames, halike.output⟩
  | error fault =>
    rw [Eval.tryScopes_of_error hfirst, Eval.tryScopes_of_error hsecond]
    exact ⟨rfl, halike⟩

theorem declare_simulates (name : String) (value : Value) :
    Simulates (Alike depth past past') (Eval.tryScopes (Scopes.declare name value))
      (Eval.tryScopes (Scopes.declare name value)) :=
  tryScopes_simulates fun hframes ↦ hframes.declare name value

theorem print_simulates (line : String) :
    Simulates (Alike depth past past') (Eval.print line) (Eval.print line) := by
  intro first second halike
  obtain ⟨recent, hfirst, hsecond⟩ := halike.output
  rw [Eval.print_apply, Eval.print_apply, hfirst.print_call, hsecond.print_call]
  exact ⟨rfl, halike.frames, (recent.print line).2, hfirst.print line, hsecond.print line⟩

theorem ofExcept_simulates (outcome : Except Fault Result) :
    Simulates (Alike depth past past') (Eval.ofExcept outcome) (Eval.ofExcept outcome) := by
  cases outcome with
  | ok result => exact .pure result
  | error fault => exact .throw _

/-! ### Expressions -/

theorem eval_simulates (expr : Expr) : Simulates (Alike depth past past') expr.eval expr.eval := by
  fun_induction Expr.eval with
  | case1 value => exact .pure _
  | case2 contents => exact .pure _
  | case3 name => exact lookup_simulates name
  | case4 op operand ih => exact ih.bind fun value ↦ ofExcept_simulates _
  | case5 op left right ihleft ihright =>
    exact ihleft.bind fun first ↦ ihright.bind fun second ↦ ofExcept_simulates _
  | case6 condition whenTrue whenFalse ihcondition ihtrue ihfalse =>
    refine ihcondition.bind fun value ↦ ?_
    split
    · exact ihtrue
    · exact ihfalse
  | case7 callee arguments ih => exact ih
  | case8 name value ih =>
    refine ih.bind fun result ↦ ?_
    exact (tryScopes_simulates fun hframes ↦ hframes.assign name result).bind fun _ ↦ .pure _
  | case9 target value => exact .throw _
  | case10 => exact .throw _

theorem test_simulates (condition : Expr) :
    Simulates (Alike depth past past') (ofEval condition.test) (ofEval condition.test) :=
  ofEval_simulates ((eval_simulates condition).bind fun _ ↦ .pure _)

theorem matchesLabel_simulates (subject : Value) (labels : List Expr) :
    Simulates (Alike depth past past') (Eval.matchesLabel subject labels)
      (Eval.matchesLabel subject labels) := by
  induction labels with
  | nil => exact .pure _
  | cons label labels ih =>
    refine (eval_simulates label).bind fun value ↦ ?_
    split
    · exact .pure _
    · exact ih

theorem selectArm_simulates (subject : Value) (arms : List (Arm Stmt)) (place : Nat)
    (fallback : Option Nat) :
    Simulates (Alike depth past past') (Eval.selectArm subject arms place fallback)
      (Eval.selectArm subject arms place fallback) := by
  induction arms generalizing place fallback with
  | nil => exact .pure _
  | cons arm arms ih =>
    refine (matchesLabel_simulates subject arm.labels).bind fun found ↦ ?_
    split
    · exact .pure _
    · exact ih _ _

/-! ### Control flow -/

/-- A frame that both machines push is the same on both as long as it is there. -/
theorem within_simulates {body : Structured Machine Result} (hkeeps : Preserves Machine.Keeps body)
    (h : Simulates (Alike (depth + 1) past past') body body) (kind : FrameKind) :
    Simulates (Alike depth past past') (within kind body) (within kind body) := by
  intro first second halike
  have hpushed : Alike (depth + 1) past past' (first.withScopes (first.scopes.push kind))
      (second.withScopes (second.scopes.push kind)) :=
    ⟨.push ⟨kind, []⟩ halike.frames, halike.output⟩
  obtain ⟨ending, after, frame, outer, hrun, hframes, -, -, -, hwithin⟩ :=
    Balanced.exists_within hkeeps kind first
  obtain ⟨ending', after', frame', outer', hrun', hframes', -, -, -, hwithin'⟩ :=
    Balanced.exists_within hkeeps kind second
  have hbody := h _ _ hpushed
  rw [hrun, hrun'] at hbody
  obtain ⟨rfl, hafter⟩ : ending = ending' ∧ Alike (depth + 1) past past' after after' := hbody
  have hinside := hafter.frames
  rw [hframes, hframes'] at hinside
  rw [hwithin, hwithin']
  exact ⟨rfl, hinside.pop, hafter.output⟩

theorem leave_simulates :
    Simulates (Alike depth past past') Balanced.leave Balanced.leave := by
  intro first second halike
  have htarget := halike.frames.hasTarget_iff
  rw [Balanced.leave, Balanced.leave]
  by_cases hsecond : Frames.HasTarget second.scopes.frames
  · rw [Frames.unwind?_of_hasTarget hsecond, Frames.unwind?_of_hasTarget (htarget.2 hsecond)]
    exact ⟨rfl, halike⟩
  · rw [Frames.unwind?_of_not_hasTarget hsecond,
      Frames.unwind?_of_not_hasTarget fun hfirst ↦ hsecond (htarget.1 hfirst)]
    exact ⟨rfl, halike⟩

theorem switch_simulates (subject : Expr) (arms : List (Arm Stmt))
    {runFrom : Nat → Structured Machine Unit}
    (hkeeps : ∀ place, Preserves Machine.Keeps (runFrom place))
    (h : ∀ place, Simulates (Alike (depth + 1) past past') (runFrom place) (runFrom place)) :
    Simulates (Alike depth past past') (Balanced.switch subject arms runFrom)
      (Balanced.switch subject arms runFrom) := by
  apply Simulates.discard
  apply stopping_simulates
  apply within_simulates (Balanced.selected_keeps subject arms hkeeps)
  refine Simulates.bind (ofEval_simulates ?_) fun selected ↦ ?_
  · exact (eval_simulates subject).bind fun value ↦ selectArm_simulates value arms 0 none
  · cases selected with
    | none => exact .pure _
    | some place => exact h place

theorem attempt_simulates {body handler : Structured Machine Unit} (binding : String)
    (hbodyKeeps : Preserves Machine.Keeps body)
    (hbody : Simulates (Alike (depth + 1) past past') body body)
    (hhandlerKeeps : Preserves Machine.Keeps handler)
    (hhandler : Simulates (Alike (depth + 1) past past') handler handler) :
    Simulates (Alike depth past past') (Balanced.attempt body binding handler)
      (Balanced.attempt body binding handler) := by
  intro first second halike
  obtain ⟨hending, hafter⟩ := within_simulates hbodyKeeps hbody .attempt first second halike
  unfold Balanced.attempt
  generalize within .attempt body first = ended at hending hafter ⊢
  generalize within .attempt body second = ended' at hending hafter ⊢
  obtain ⟨ending, after⟩ := ended
  obtain ⟨ending', after'⟩ := ended'
  obtain rfl : ending = ending' := hending
  rcases ending with (_ | fault | _) | _
  · have hbreakable : after.scopes.isBreakable = after'.scopes.isBreakable :=
      hafter.frames.isBreakable_eq
    simp only [hbreakable]
    split
    · exact ⟨rfl, hafter⟩
    · exact ⟨rfl, hafter⟩
  · have hrescueKeeps : Preserves Machine.Keeps (do
        ofEval (Eval.tryScopes (Scopes.declare binding (.text fault.message)))
        handler) :=
      (Balanced.ofEval_preserves (Eval.declare_keeps _ _)).bind fun _ ↦ hhandlerKeeps
    have hrescue : Simulates (Alike (depth + 1) past past')
        (do
          ofEval (Eval.tryScopes (Scopes.declare binding (.text fault.message)))
          handler)
        (do
          ofEval (Eval.tryScopes (Scopes.declare binding (.text fault.message)))
          handler) :=
      (ofEval_simulates (declare_simulates _ _)).bind fun _ ↦ hhandler
    exact within_simulates hrescueKeeps hrescue .block _ _ ⟨hafter.frames, hafter.output⟩
  · exact ⟨rfl, hafter⟩
  · exact ⟨rfl, hafter⟩

/-! ### Statements -/

section Programs

variable (rounds : Nat)

theorem runAll_simulates {statements : List Stmt}
    (h : ∀ statement ∈ statements, Simulates (Alike depth past past')
      (Balanced.runStmt rounds statement) (Balanced.runStmt rounds statement)) :
    Simulates (Alike depth past past') (Balanced.runAll rounds statements)
      (Balanced.runAll rounds statements) := by
  induction statements with
  | nil => exact .pure _
  | cons statement statements ih =>
    rw [Balanced.runAll]
    refine (h statement (List.mem_cons_self ..)).discard.bind fun _ ↦ ?_
    exact ih fun later hmem ↦ h later (List.mem_cons_of_mem _ hmem)

theorem body_simulates {statements : List Stmt}
    (h : ∀ statement ∈ statements, Simulates (Alike (depth + 1) past past')
      (Balanced.runStmt rounds statement) (Balanced.runStmt rounds statement)) :
    Simulates (Alike depth past past') (within .block (Balanced.runAll rounds statements))
      (within .block (Balanced.runAll rounds statements)) := by
  apply within_simulates _ (runAll_simulates rounds h)
  exact Balanced.runAll_keeps rounds fun statement _ ↦ Balanced.runStmt_keeps rounds statement

theorem runArms_simulates {arms : List (Arm Stmt)}
    (h : ∀ arm ∈ arms, ∀ statement ∈ arm.statements, Simulates (Alike depth past past')
      (Balanced.runStmt rounds statement) (Balanced.runStmt rounds statement)) (skipped : Nat) :
    Simulates (Alike depth past past') (Balanced.runArms rounds skipped arms)
      (Balanced.runArms rounds skipped arms) := by
  induction arms generalizing skipped with
  | nil =>
    rw [Balanced.runArms]
    exact .pure _
  | cons arm arms ih =>
    have hlater := ih fun later hmem ↦ h later (List.mem_cons_of_mem _ hmem)
    cases skipped with
    | succ skipped =>
      rw [Balanced.runArms]
      exact hlater skipped
    | zero =>
      rw [Balanced.runArms]
      exact (runAll_simulates rounds (h arm (List.mem_cons_self ..))).bind fun _ ↦ hlater 0

theorem runAlternative_simulates {alternative : Alternative}
    (h : ∀ statement ∈ alternative.branches, Simulates (Alike depth past past')
      (Balanced.runStmt rounds statement) (Balanced.runStmt rounds statement)) :
    Simulates (Alike depth past past') (Balanced.runAlternative rounds alternative)
      (Balanced.runAlternative rounds alternative) := by
  induction alternative using Alternative.induction with
  | none =>
    rw [Balanced.runAlternative]
    exact .pure _
  | otherwise body =>
    rw [Balanced.runAlternative]
    exact (h body (List.mem_cons_self ..)).discard
  | elseWhen condition body rest ih =>
    rw [Balanced.runAlternative]
    refine (test_simulates condition).bind fun holds ↦ ?_
    split
    · exact (h body (List.mem_cons_self ..)).discard
    · exact ih fun later hmem ↦ h later (List.mem_cons_of_mem _ hmem)

/-- A balanced run cannot tell two machines apart that are alike. -/
theorem runStmt_simulates (statement : Stmt) (depth : Nat) :
    Simulates (Alike depth past past') (Balanced.runStmt rounds statement)
      (Balanced.runStmt rounds statement) := by
  have hkeeps := Balanced.runStmt_keeps rounds
  induction statement using Stmt.induction generalizing depth with
  | expression value =>
    rw [Balanced.runStmt]
    exact ofEval_simulates (eval_simulates value)
  | declare name value =>
    cases value with
    | none =>
      rw [Balanced.runStmt]
      exact ofEval_simulates ((declare_simulates name .null).bind fun _ ↦ .pure _)
    | some value =>
      rw [Balanced.runStmt]
      apply ofEval_simulates
      refine (eval_simulates value).bind fun result ↦ ?_
      exact (declare_simulates name result).bind fun _ ↦ .pure _
  | block statements ih =>
    rw [Balanced.runStmt]
    exact (body_simulates rounds fun statement hmem ↦ ih statement hmem _).bind fun _ ↦ .pure _
  | when condition body rest ihbody ihrest =>
    rw [Balanced.runStmt]
    refine (test_simulates condition).bind fun holds ↦ ?_
    split
    · exact (ihbody depth).discard.bind fun _ ↦ .pure _
    · refine Simulates.bind ?_ fun _ ↦ .pure _
      exact runAlternative_simulates rounds fun statement hmem ↦ ihrest statement hmem depth
  | loop condition body ih =>
    rw [Balanced.runStmt]
    refine Simulates.bind ?_ fun _ ↦ .pure _
    apply repeatWhile_simulates (test_simulates condition)
    exact within_simulates (hkeeps body).discard (ih (depth + 1)).discard .loop
  | switch subject arms ih =>
    rw [Balanced.runStmt]
    refine Simulates.bind ?_ fun _ ↦ .pure _
    apply switch_simulates
    · exact Balanced.runArms_keeps rounds fun _ _ statement _ ↦ hkeeps statement
    · exact runArms_simulates rounds fun arm harm statement hmem ↦ ih arm harm statement hmem _
  | leave =>
    rw [Balanced.runStmt]
    exact leave_simulates.bind fun _ ↦ .pure _
  | attempt body binding handler ihbody ihhandler =>
    rw [Balanced.runStmt]
    refine Simulates.bind ?_ fun _ ↦ .pure _
    exact attempt_simulates binding (Balanced.body_keeps rounds body)
      (body_simulates rounds fun statement hmem ↦ ihbody statement hmem _)
      (Balanced.body_keeps rounds handler)
      (body_simulates rounds fun statement hmem ↦ ihhandler statement hmem _)
  | throw value =>
    rw [Balanced.runStmt]
    exact ofEval_simulates ((eval_simulates value).bind fun _ ↦ .throw _)
  | print value =>
    rw [Balanced.runStmt]
    apply ofEval_simulates
    refine (eval_simulates value).bind fun result ↦ ?_
    exact (print_simulates _).bind fun _ ↦ .pure _

end Programs

end Machine.Alike

/-! ## Runs -/

namespace Eval

variable {Result : Type}

/-- The computation has no other value than null. -/
def GivesNull (computation : Eval Value) : Prop :=
  ∀ machine value, (computation machine).1 = .ok value → value = .null

theorem GivesNull.pure : GivesNull (Pure.pure .null) :=
  fun _ _ hvalue ↦ (Except.ok.inj hvalue).symm

theorem GivesNull.bind {first : Eval Result} {next : Result → Eval Value}
    (h : ∀ result, GivesNull (next result)) : GivesNull (first >>= next) := by
  intro machine value hvalue
  rcases hfirst : first machine with ⟨reason | result, after⟩
  · rw [bind_of_error hfirst] at hvalue
    cases hvalue
  · rw [bind_of_ok hfirst] at hvalue
    exact h result after value hvalue

end Eval

/-- Only expressions have values other than null. -/
theorem Stmt.run_givesNull (rounds : Nat) {statement : Stmt}
    (h : ∀ value, statement ≠ .expression value) : Eval.GivesNull (statement.run rounds) := by
  cases statement with
  | expression value => exact absurd rfl (h value)
  | declare name value =>
    cases value with
    | none =>
      rw [Stmt.run]
      exact .bind fun _ ↦ .pure
    | some value =>
      rw [Stmt.run]
      exact .bind fun _ ↦ .bind fun _ ↦ .pure
  | when condition body rest =>
    rw [Stmt.run]
    refine .bind fun holds ↦ ?_
    split <;> exact .bind fun _ ↦ .pure
  | throw value =>
    rw [Stmt.run]
    exact .bind fun _ _ _ hvalue ↦ by cases hvalue
  | print value =>
    rw [Stmt.run]
    exact .bind fun _ ↦ .bind fun _ ↦ .pure
  | block | loop | switch | leave | attempt =>
    rw [Stmt.run]
    exact .bind fun _ ↦ .pure

/-- A `dip` sets out from a statement that has no value. -/
theorem Stmt.eq_null_of_leaves {rounds : Nat} {statement : Stmt} {machine : Machine} {value : Value}
    (hleaves : (Balanced.runStmt rounds statement machine).1 = .error .leave)
    (hvalue : (statement.run rounds machine).1 = .ok value) : value = .null := by
  apply Stmt.run_givesNull rounds ?_ machine value hvalue
  rintro expr rfl
  rw [Stmt.run] at hvalue
  rw [Balanced.runStmt, Balanced.ofEval, hvalue] at hleaves
  cases hleaves

theorem Unwinding.Mirrors.output_eq {Result : Type} {pending : Bool}
    {first : Except Halt Result × Machine} {first' : Except Exit Result × Machine}
    (h : Mirrors pending first first') : first.2.output = first'.2.output := by
  cases h <;> rfl

/-- Where balanced runs of a statement end in the same way, on frames that look the same, so do its
runs. -/
theorem Unwinding.Mirrors.alike {ending ending' : Except Halt Value × Machine}
    {balanced balanced' : Except Exit Value × Machine} (h : Mirrors true ending balanced)
    (h' : Mirrors true ending' balanced') (hsame : balanced.1 = balanced'.1)
    (hframes : Frames.Indistinct 0 balanced.2.scopes.frames balanced'.2.scopes.frames)
    (hnull : ∀ {value}, balanced.1 = .error .leave → ending.1 = .ok value → value = .null)
    (hnull' : ∀ {value}, balanced'.1 = .error .leave → ending'.1 = .ok value → value = .null) :
    ending.1 = ending'.1 ∧ ending.2.leaving = ending'.2.leaving ∧
      ∀ value, ending.1 = .ok value → ending.2.leaving = false →
        Frames.SameView ending.2.scopes.frames ending'.2.scopes.frames := by
  cases h with
  | settled result calm =>
    cases h' with
    | settled result' calm' =>
      obtain ⟨view⟩ := hframes
      exact ⟨congrArg Except.ok (Except.ok.inj hsame), calm.trans calm'.symm, fun _ _ _ ↦ view⟩
    | leaving => cases hsame
    | halted => cases hsame
  | leaving result output caught unwound =>
    cases h' with
    | settled => cases hsame
    | leaving result' output' caught' unwound' =>
      obtain rfl := hnull rfl rfl
      obtain rfl := hnull' rfl rfl
      exact ⟨rfl, rfl, fun _ _ hcalm ↦ by cases hcalm⟩
    | halted => cases hsame
  | halted reason extra held output caught =>
    cases h' with
    | settled => cases hsame
    | leaving => cases hsame
    | halted reason' extra' held' output' caught' =>
      obtain rfl := Exit.halt.inj (Except.error.inj hsame)
      exact ⟨rfl, rfl, fun _ hvalue ↦ by cases hvalue⟩

namespace Output.Continues

variable {past : List PrintCall} {output recent : Output}

theorem remaining_eq (h : output.Continues past recent) : output.remaining = recent.remaining := by
  funext calls
  rw [remaining, remaining, h.calls, ← List.append_assoc, h.sink]

theorem of_remaining (output : Output) :
    output.Continues output.calls (.ofSink output.remaining) :=
  ⟨fun _ ↦ rfl, rfl⟩

end Output.Continues

/-- No statement can tell two machines apart of which it sees the same: without a pending `dip`,
with sinks that answer in the same way from now on, and with the same view of their frames. It ends
in the same way on both and calls the sinks with the same lines, for any number of rounds, and
unless it fails or lets a `dip` set out, it leaves both machines with the same view again. -/
theorem run_sees_view (rounds : Nat) (statement : Stmt) {first second : Machine}
    (hcalm : first.leaving = false) (hcalm' : second.leaving = false)
    (hview : Frames.SameView first.scopes.frames second.scopes.frames)
    (hsink : first.output.remaining = second.output.remaining) :
    let ending := statement.run rounds first
    let ending' := statement.run rounds second
    ending.1 = ending'.1 ∧
      (∃ calls, ending.2.output.calls = calls ++ first.output.calls ∧
        ending'.2.output.calls = calls ++ second.output.calls) ∧
      ending.2.output.remaining = ending'.2.output.remaining ∧
      ending.2.leaving = ending'.2.leaving ∧
      (∀ value, ending.1 = .ok value → ending.2.leaving = false →
        Frames.SameView ending.2.scopes.frames ending'.2.scopes.frames) := by
  have halike : Machine.Alike 0 first.output.calls second.output.calls first second := by
    refine ⟨.base hview, .ofSink first.output.remaining, .of_remaining _, ?_⟩
    rw [hsink]
    exact .of_remaining _
  obtain ⟨hending, hafter⟩ := Machine.Alike.runStmt_simulates rounds statement 0 _ _ halike
  have hmirrors := Unwinding.run_tracks rounds statement first hcalm
  have hmirrors' := Unwinding.run_tracks rounds statement second hcalm'
  obtain ⟨recent, hrecent, hrecent'⟩ := hafter.output
  rw [← hmirrors.output_eq] at hrecent
  rw [← hmirrors'.output_eq] at hrecent'
  obtain ⟨houtcome, hleaving, hafterView⟩ := hmirrors.alike hmirrors' hending hafter.frames
    Stmt.eq_null_of_leaves Stmt.eq_null_of_leaves
  exact ⟨houtcome, ⟨recent.calls, hrecent.calls, hrecent'.calls⟩,
    hrecent.remaining_eq.trans hrecent'.remaining_eq.symm, hleaving, hafterView⟩

/-- A loop body with a variable that hides another one. -/
def hidingMachine : Machine :=
  ⟨⟨[⟨.block, [("x", .null)]⟩, ⟨.loop, [("y", .text "b"), ("x", .text "hidden")]⟩]⟩, false,
    .ofSink .accepting, []⟩

/-- An arm of a switch, with the same variables in other frames, behind a line. -/
def plainMachine : Machine :=
  ⟨⟨[⟨.block, [("x", .null)]⟩, ⟨.switch, []⟩, ⟨.block, [("y", .text "b")]⟩]⟩, false,
    ⟨.accepting, [⟨"a", none⟩]⟩, []⟩

theorem hidingMachine_sameView :
    Frames.SameView hidingMachine.scopes.frames plainMachine.scopes.frames := by
  refine ⟨⟨List.cons_ne_nil _ _, List.cons_ne_nil _ _⟩, fun name ↦ ?_, fun _ ↦ Iff.rfl, ?_, rfl⟩
  · have hempty (kind : FrameKind) : (⟨kind, []⟩ : Frame).get? name = none := rfl
    by_cases hx : name = "x" <;>
      simp [hidingMachine, plainMachine, Frames.get?_cons, Frame.get?_mk_cons, hempty, hx]
  · exact ⟨fun _ ↦ ⟨⟨.switch, []⟩, by simp [plainMachine], by decide⟩,
      fun _ ↦ ⟨_, List.mem_cons_of_mem _ (List.mem_cons_self ..), by decide⟩⟩

/-- A statement that assigns a variable and prints it prints the same on both machines. -/
theorem hidingMachine_unseen :
    let statement := Stmt.print (.assign (.identifier "x") (.identifier "y"))
    (statement.run 1 hidingMachine).1 = .ok .null ∧ (statement.run 1 plainMachine).1 = .ok .null ∧
      (statement.run 1 hidingMachine).2.output.lines = ["b"] ∧
      (statement.run 1 plainMachine).2.output.lines = ["a", "b"] ∧
      Frames.SameView (statement.run 1 hidingMachine).2.scopes.frames
        (statement.run 1 plainMachine).2.scopes.frames := by
  have hsink : hidingMachine.output.remaining = plainMachine.output.remaining := rfl
  obtain ⟨houtcome, -, -, -, hview⟩ := run_sees_view 1
    (.print (.assign (.identifier "x") (.identifier "y"))) rfl rfl hidingMachine_sameView hsink
  exact ⟨rfl, houtcome.symm, rfl, rfl, hview .null rfl rfl⟩

end Slang
