import Slang.Proofs.Balanced

/-!
# Runs and balanced runs

A run leaves frames behind when a `dip` is pending and when it fails, and it marks a pending `dip`
in the machine. A balanced run does neither. `Mirrors` relates the ends of two such runs: they print
and catch the same, a run that settles ends in the same machine, and otherwise the frames of the
balanced run can be found among those of the run. Every statement is tracked by its balanced run.
-/

namespace Slang

open Stateful Structured

namespace Unwinding

variable {Result Next : Type} {pending : Bool}

/-- How a run ends, beside its balanced run. A `dip` that the balanced run ends with shows in the
machine of the run by the mark `pending`. -/
inductive Mirrors (pending : Bool) :
    Except Halt Result × Machine → Except Exit Result × Machine → Prop
  | settled (result : Result) {machine : Machine} (calm : machine.leaving = false) :
    Mirrors pending (.ok result, machine) (.ok result, machine)
  | leaving (result : Result) {held left : List Frame} (output : Output) (caught : List Fault)
      (unwound : Frames.Unwound held left) :
    Mirrors pending (.ok result, ⟨⟨left⟩, pending, output, caught⟩)
      (.error .leave, ⟨⟨held⟩, false, output, caught⟩)
  | halted (reason : Halt) (extra held : List Frame) (output : Output) (caught : List Fault) :
    Mirrors pending (.error reason, ⟨⟨extra ++ held⟩, false, output, caught⟩)
      (.error (.halt reason), ⟨⟨held⟩, false, output, caught⟩)

/-- A computation and its balanced counterpart, from any machine without a pending `dip`. -/
def Tracks (pending : Bool) (run : Eval Result) (balanced : Structured Machine Result) : Prop :=
  ∀ machine, machine.leaving = false → Mirrors pending (run machine) (balanced machine)

theorem tracks_ofEval {computation : Eval Result} (h : Preserves Machine.Keeps computation) :
    Tracks pending computation (Balanced.ofEval computation) := by
  intro machine hcalm
  have hleaving := (h machine).leaving.trans hcalm
  unfold Balanced.ofEval
  generalize computation machine = ending at hleaving ⊢
  obtain ⟨_ | result, ⟨⟨frames⟩, leaving, output, caught⟩⟩ := ending
  · obtain rfl : leaving = false := hleaving
    exact .halted _ [] frames output caught
  · exact .settled result hleaving

theorem Tracks.bind {run : Eval Result} {balanced : Structured Machine Result}
    {next : Result → Eval Next} {next' : Result → Structured Machine Next}
    (h : Tracks pending run balanced) (hstays : ∀ machine, (balanced machine).1 ≠ .error .leave)
    (hnext : ∀ result, Tracks pending (next result) (next' result)) :
    Tracks pending (run >>= next) (balanced >>= next') := by
  intro machine hcalm
  have hfirst := h machine hcalm
  have hstay := hstays machine
  generalize hrun : run machine = first at hfirst
  generalize hbalanced : balanced machine = first' at hfirst hstay
  cases hfirst with
  | settled result calm =>
    rw [bind_of_ok hrun, bind_of_ok hbalanced]
    exact hnext result _ calm
  | leaving => exact absurd rfl hstay
  | halted reason extra held output caught =>
    rw [bind_of_error hrun, bind_of_error hbalanced]
    exact .halted reason extra held output caught

theorem Tracks.bind_ofEval {computation : Eval Result} {next : Result → Eval Next}
    {next' : Result → Structured Machine Next} (h : Preserves Machine.Keeps computation)
    (hnext : ∀ result, Tracks pending (next result) (next' result)) :
    Tracks pending (computation >>= next) (Balanced.ofEval computation >>= next') := by
  refine (tracks_ofEval h).bind ?_ hnext
  intro machine
  unfold Balanced.ofEval
  rcases computation machine with ⟨_ | _, _⟩ <;> simp [Except.mapError]

theorem Tracks.map {run : Eval Result} {balanced : Structured Machine Result}
    (h : Tracks pending run balanced) (change : Result → Next) :
    Tracks pending (do return change (← run)) (do return change (← balanced)) := by
  intro machine hcalm
  have hfirst := h machine hcalm
  generalize hrun : run machine = first at hfirst
  generalize hbalanced : balanced machine = first' at hfirst
  cases hfirst with
  | settled result calm =>
    rw [bind_of_ok hrun, bind_of_ok hbalanced]
    exact .settled _ calm
  | leaving result output caught unwound =>
    rw [bind_of_ok hrun, bind_of_error hbalanced]
    exact .leaving _ output caught unwound
  | halted reason extra held output caught =>
    rw [bind_of_error hrun, bind_of_error hbalanced]
    exact .halted reason extra held output caught

theorem Tracks.discard {run : Eval Result} {balanced : Structured Machine Result}
    (h : Tracks pending run balanced) :
    Tracks pending (Functor.discard run) (Functor.discard balanced) := by
  rw [discard_eq_bind, discard_eq_bind]
  exact h.map fun _ ↦ ()

/-! ## Frames that a construct pushes -/

/-- How a run ends in a frame that a `dip` stops at, beside the balanced run that has dropped the
frame: the frames outside it are the same. -/
inductive Closes (pending : Bool) (outside : Nat) :
    Except Halt Result × Machine → Except Exit Result × Machine → Prop
  | settled (result : Result) {held left : List Frame} (output : Output) (caught : List Fault)
      (dropped : Scopes.truncate outside ⟨left⟩ = ⟨held⟩) :
    Closes pending outside (.ok result, ⟨⟨left⟩, false, output, caught⟩)
      (.ok result, ⟨⟨held⟩, false, output, caught⟩)
  | leaving (result : Result) {held left : List Frame} (output : Output) (caught : List Fault)
      (dropped : Scopes.truncate outside ⟨left⟩ = ⟨held⟩) :
    Closes pending outside (.ok result, ⟨⟨left⟩, pending, output, caught⟩)
      (.error .leave, ⟨⟨held⟩, false, output, caught⟩)
  | halted (reason : Halt) (extra held : List Frame) (output : Output) (caught : List Fault)
      (dropped : Scopes.truncate outside ⟨extra ++ held⟩ = ⟨held⟩) :
    Closes pending outside (.error reason, ⟨⟨extra ++ held⟩, false, output, caught⟩)
      (.error (.halt reason), ⟨⟨held⟩, false, output, caught⟩)

theorem Tracks.closes {run : Eval Result} {balanced : Structured Machine Result} {kind : FrameKind}
    (h : Tracks pending run balanced) (hkeeps : Preserves Machine.Keeps balanced)
    (hkind : kind ≠ .block) {machine : Machine} (hcalm : machine.leaving = false) :
    Closes pending machine.scopes.depth (run (machine.withScopes (machine.scopes.push kind)))
      (Balanced.within kind balanced machine) := by
  obtain ⟨ending, after, frame, outer, hbalanced, hframes, hframe, houter, -, hwithin⟩ :=
    Balanced.exists_within hkeeps kind machine
  have hdepth : machine.scopes.depth = outer.length :=
    (Frames.length_eq_of_shapes_eq houter).symm
  have hmirrors := h (machine.withScopes (machine.scopes.push kind)) hcalm
  have htarget : frame.kind ≠ .block := hframe ▸ hkind
  rw [hbalanced] at hmirrors
  rw [hwithin, hdepth]
  generalize run (machine.withScopes (machine.scopes.push kind)) = first at hmirrors
  cases hmirrors with
  | settled result calm =>
    obtain ⟨⟨frames⟩, leaving, output, caught⟩ := after
    obtain rfl : leaving = false := calm
    obtain rfl : frames = frame :: outer := hframes
    exact .settled result output caught (Frames.truncate_append [frame] outer)
  | leaving result output caught unwound =>
    obtain rfl := hframes
    obtain ⟨extra, rfl⟩ := unwound.exists_append htarget
    have hdropped := Frames.truncate_append (extra ++ [frame]) outer
    rw [List.append_assoc, List.singleton_append] at hdropped
    exact .leaving result output caught hdropped
  | halted reason extra held output caught =>
    obtain rfl := hframes
    have hdropped := Frames.truncate_append (extra ++ [frame]) outer
    have hleft : extra ++ frame :: outer = extra ++ [frame] ++ outer := by simp
    rw [hleft]
    exact .halted reason (extra ++ [frame]) outer output caught hdropped

/-- What does not settle passes through a block frame, which the balanced run drops. -/
theorem Mirrors.pass {exit : Exit} {first : Except Halt Result × Machine} {after : Machine}
    {frame : Frame} {outer : List Frame} (h : Mirrors true first (.error exit, after))
    (hframes : after.scopes.frames = frame :: outer) (hblock : frame.kind = .block) :
    Mirrors true first (.error exit, after.withScopes ⟨outer⟩) := by
  cases h with
  | leaving result output caught unwound =>
    obtain rfl := hframes
    exact .leaving result output caught (unwound.tail hblock)
  | halted reason extra held output caught =>
    obtain rfl := hframes
    have hleft : extra ++ frame :: outer = extra ++ [frame] ++ outer := by simp
    rw [hleft]
    exact .halted reason (extra ++ [frame]) outer output caught

/-- A run in a block frame that drops the frame at its end unless it fails. -/
theorem Tracks.truncated {run : Eval Unit} {balanced : Structured Machine Unit}
    (h : Tracks true run balanced) (hkeeps : Preserves Machine.Keeps balanced) {machine : Machine}
    (hcalm : machine.leaving = false) :
    Mirrors true
      ((do run; Eval.truncate machine.scopes.depth)
        (machine.withScopes (machine.scopes.push .block)))
      (Balanced.within .block balanced machine) := by
  obtain ⟨ending, after, frame, outer, hbalanced, hframes, hblock, houter, -, hwithin⟩ :=
    Balanced.exists_within hkeeps .block machine
  have hdepth : machine.scopes.depth = outer.length :=
    (Frames.length_eq_of_shapes_eq houter).symm
  have hmirrors := h (machine.withScopes (machine.scopes.push .block)) hcalm
  rw [hbalanced] at hmirrors
  rw [hwithin, hdepth]
  generalize hrun : run (machine.withScopes (machine.scopes.push .block)) = first at hmirrors
  cases hmirrors with
  | settled result calm =>
    rw [bind_of_ok hrun]
    have hdropped : after.scopes.truncate outer.length = ⟨outer⟩ := by
      rw [← Frames.truncate_append [frame] outer, List.singleton_append, ← hframes]
    rw [← hdropped]
    exact .settled _ calm
  | leaving result output caught unwound =>
    obtain rfl := hframes
    rw [bind_of_ok hrun]
    exact .leaving _ output caught (unwound.tail hblock).truncate
  | halted reason extra held output caught =>
    rw [bind_of_error hrun]
    exact (Mirrors.halted reason extra held output caught).pass hframes hblock

/-! ## Loops, switches and attempts -/

theorem stopping_ne_leave (body : Structured Machine Unit) (machine : Machine) :
    (stopping body machine).1 ≠ .error .leave := by
  unfold stopping
  split <;> simp

theorem loopRound_tracks {run : Eval Unit} {balanced : Structured Machine Unit}
    (h : Tracks true run balanced) (hkeeps : Preserves Machine.Keeps balanced) :
    Tracks true (Eval.loopRound run) (stopping (Balanced.within .loop balanced)) := by
  intro machine hcalm
  have hcloses := h.closes hkeeps (by decide : FrameKind.loop ≠ .block) hcalm
  generalize hrun : run (machine.withScopes (machine.scopes.push .loop)) = first at hcloses
  generalize hwithin : Balanced.within .loop balanced machine = first' at hcloses
  rw [Eval.loopRound, bind_of_ok (Eval.depth_apply machine),
    bind_of_ok (Eval.push_apply .loop machine)]
  cases hcloses with
  | settled result output caught dropped =>
    rw [bind_of_ok hrun, stopping_of_ok hwithin, ← dropped]
    exact .settled false rfl
  | leaving result output caught dropped =>
    rw [bind_of_ok hrun, stopping_of_leave hwithin, ← dropped]
    exact .settled true rfl
  | halted reason extra held output caught dropped =>
    rw [bind_of_error hrun, stopping_of_halt hwithin]
    exact .halted reason extra held output caught

theorem repeatWhile_tracks {test : Eval Bool} {run : Eval Unit}
    {balanced : Structured Machine Unit} (htest : Preserves Machine.Keeps test)
    (h : Tracks true run balanced) (hkeeps : Preserves Machine.Keeps balanced) (rounds : Nat) :
    Tracks true (Eval.repeatWhile test run rounds)
      (repeatWhile (Balanced.ofEval test) (Balanced.within .loop balanced) rounds) := by
  induction rounds with
  | zero => exact tracks_ofEval (Preserves.throw Halt.outOfRounds)
  | succ rounds ih =>
    refine Tracks.bind_ofEval htest fun holds ↦ ?_
    cases holds with
    | false => exact fun machine hcalm ↦ .settled _ hcalm
    | true =>
      refine (loopRound_tracks h hkeeps).bind (stopping_ne_leave _) fun stopped ↦ ?_
      cases stopped with
      | true => exact fun machine hcalm ↦ .settled _ hcalm
      | false => exact ih

theorem switch_apply (subject : Expr) (arms : List (Arm Stmt)) (run : Nat → Eval Unit)
    (machine : Machine) :
    Eval.switch subject arms run machine =
      (do
        (do
          let place ← Balanced.select subject arms
          place.elim (return ()) run)
        Eval.truncate machine.scopes.depth : Eval Unit)
        (machine.withScopes (machine.scopes.push .switch)) := by
  rw [Eval.switch, bind_of_ok (Eval.depth_apply machine),
    bind_of_ok (Eval.push_apply .switch machine)]
  simp only [Balanced.select, bind_assoc]
  refine congrFun (bind_congr fun value ↦ bind_congr fun place ↦ ?_) _
  cases place with
  | none => rfl
  | some place => rfl

theorem switch_tracks (subject : Expr) (arms : List (Arm Stmt)) {run : Nat → Eval Unit}
    {balanced : Nat → Structured Machine Unit}
    (h : ∀ place, Tracks false (run place) (balanced place))
    (hkeeps : ∀ place, Preserves Machine.Keeps (balanced place)) :
    Tracks true (Eval.switch subject arms run) (Balanced.switch subject arms balanced) := by
  intro machine hcalm
  -- The arms take a `dip` in before the frame of the switch is dropped, so none is pending then.
  have hbody : Tracks false
      (do
        let place ← Balanced.select subject arms
        place.elim (return ()) run)
      (do
        let place ← Balanced.ofEval (Balanced.select subject arms)
        place.elim (return ()) balanced) := by
    refine Tracks.bind_ofEval (Balanced.select_keeps subject arms) fun place ↦ ?_
    cases place with
    | none => exact fun machine hcalm ↦ .settled () hcalm
    | some place => exact h place
  have hcloses := hbody.closes (Balanced.selected_keeps subject arms hkeeps)
    (by decide : FrameKind.switch ≠ .block) hcalm
  rw [switch_apply, Balanced.switch, discard_eq_bind]
  generalize hrun : (do
    let place ← Balanced.select subject arms
    place.elim (return ()) run : Eval Unit)
      (machine.withScopes (machine.scopes.push .switch)) = first at hcloses
  generalize hwithin : Balanced.within .switch (do
    let place ← Balanced.ofEval (Balanced.select subject arms)
    place.elim (return ()) balanced) machine = first' at hcloses
  cases hcloses with
  | settled result output caught dropped =>
    rw [bind_of_ok hrun, Eval.truncate_apply, bind_of_ok (stopping_of_ok hwithin), ← dropped]
    exact .settled () rfl
  | leaving result output caught dropped =>
    rw [bind_of_ok hrun, Eval.truncate_apply, bind_of_ok (stopping_of_leave hwithin), ← dropped]
    exact .settled () rfl
  | halted reason extra held output caught dropped =>
    rw [bind_of_error hrun, bind_of_error (stopping_of_halt hwithin)]
    exact .halted reason extra held output caught

theorem leave_tracks : Tracks true Eval.leave Balanced.leave := by
  intro machine hcalm
  obtain ⟨⟨frames⟩, leaving, output, caught⟩ := machine
  obtain rfl : leaving = false := hcalm
  rw [Eval.leave, bind_of_ok (Eval.get_apply _), Balanced.leave]
  by_cases htarget : Frames.HasTarget frames
  · rw [Frames.unwind?_of_hasTarget htarget]
    exact .leaving () output caught (Frames.unwound_dropWhile htarget)
  · rw [Frames.unwind?_of_not_hasTarget htarget]
    exact .halted (.fault .strayLeave) [] frames output caught

theorem settle_apply {run : Eval Result} {machine after : Machine} {outcome : Except Halt Result}
    (h : run machine = (outcome, after)) : Eval.settle run machine = (.ok outcome, after) := by
  rw [Eval.settle, h]

/-- An attempt keeps a pending `dip` only if a loop or switch encloses it. -/
theorem attempt_of_ok {run handler : Eval Unit} {binding : String} {machine : Machine}
    {scopes : Scopes} {leaving : Bool} {output : Output} {caught : List Fault}
    (h : run (machine.withScopes (machine.scopes.push .attempt)) =
      (.ok (), ⟨scopes, leaving, output, caught⟩)) :
    Eval.attempt run binding handler machine =
      (.ok (), ⟨scopes.truncate machine.scopes.depth,
        (scopes.truncate machine.scopes.depth).isBreakable && leaving, output, caught⟩) := by
  rw [Eval.attempt, bind_of_ok (Eval.depth_apply machine),
    bind_of_ok (Eval.push_apply .attempt machine), bind_of_ok (settle_apply h)]
  change (if (scopes.truncate machine.scopes.depth).isBreakable then pure ()
    else Eval.setLeaving false : Eval Unit) _ = _
  cases (scopes.truncate machine.scopes.depth).isBreakable <;> rfl

theorem attempt_of_fault {run handler : Eval Unit} {binding : String} {machine after : Machine}
    {fault : Fault}
    (h : run (machine.withScopes (machine.scopes.push .attempt)) = (.error (.fault fault), after)) :
    Eval.attempt run binding handler machine =
      (do
        Eval.tryScopes (Scopes.declare binding (.text fault.message))
        handler
        Eval.truncate machine.scopes.depth : Eval Unit)
        ⟨(after.scopes.truncate machine.scopes.depth).push .block, false, after.output,
          fault :: after.caught⟩ := by
  rw [Eval.attempt, bind_of_ok (Eval.depth_apply machine),
    bind_of_ok (Eval.push_apply .attempt machine), bind_of_ok (settle_apply h)]
  rfl

theorem attempt_of_outOfRounds {run handler : Eval Unit} {binding : String}
    {machine after : Machine}
    (h : run (machine.withScopes (machine.scopes.push .attempt)) = (.error .outOfRounds, after)) :
    Eval.attempt run binding handler machine = (.error .outOfRounds, after) := by
  rw [Eval.attempt, bind_of_ok (Eval.depth_apply machine),
    bind_of_ok (Eval.push_apply .attempt machine), bind_of_ok (settle_apply h)]
  rfl

theorem attempt_tracks {run handler : Eval Unit} {balanced handler' : Structured Machine Unit}
    (binding : String) (h : Tracks true run balanced) (hkeeps : Preserves Machine.Keeps balanced)
    (hhandler : Tracks true handler handler') (hkeeps' : Preserves Machine.Keeps handler') :
    Tracks true (Eval.attempt run binding handler)
      (Balanced.attempt balanced binding handler') := by
  intro machine hcalm
  have hcloses := h.closes hkeeps (by decide : FrameKind.attempt ≠ .block) hcalm
  have hshapes := Balanced.within_shapes hkeeps .attempt machine
  generalize hrun : run (machine.withScopes (machine.scopes.push .attempt)) = first at hcloses
  generalize hwithin : Balanced.within .attempt balanced machine = first' at hcloses hshapes
  rw [Balanced.attempt, hwithin]
  cases hcloses with
  | settled result output caught dropped =>
    rw [attempt_of_ok hrun, dropped, Bool.and_false]
    exact .settled () rfl
  | leaving result output caught dropped =>
    rw [attempt_of_ok hrun, dropped, Bool.and_true]
    rename_i held left
    cases hbreakable : Scopes.isBreakable ⟨held⟩ with
    | false =>
      simp only [hbreakable, Bool.false_eq_true, if_false]
      exact .settled () rfl
    | true =>
      have htarget := Frames.hasTarget_of_isBreakable hbreakable
      simp only [hbreakable, if_true]
      exact .leaving () output caught (Frames.unwound_self htarget)
  | halted reason extra held output caught dropped =>
    cases reason with
    | outOfRounds =>
      rw [attempt_of_outOfRounds hrun]
      exact .halted .outOfRounds extra held output caught
    | fault fault =>
      rw [attempt_of_fault hrun, dropped]
      have hdepth : machine.scopes.depth = held.length :=
        (Frames.length_eq_of_shapes_eq hshapes).symm
      have hrescue : Tracks true
          (do Eval.tryScopes (Scopes.declare binding (.text fault.message)); handler)
          (do
            Balanced.ofEval (Eval.tryScopes (Scopes.declare binding (.text fault.message)))
            handler') :=
        Tracks.bind_ofEval (Eval.declare_keeps _ _) fun _ ↦ hhandler
      have hrescueKeeps : Preserves Machine.Keeps (do
            Balanced.ofEval (Eval.tryScopes (Scopes.declare binding (.text fault.message)))
            handler') :=
        (Balanced.ofEval_preserves (Eval.declare_keeps _ _)).bind fun _ ↦ hkeeps'
      have htruncated := hrescue.truncated hrescueKeeps
        (rfl : (Machine.mk ⟨held⟩ false output (fault :: caught)).leaving = false)
      rw [bind_assoc] at htruncated
      rw [hdepth]
      exact htruncated

/-! ## Statements -/

section Programs

variable (rounds : Nat)

theorem runAll_cons_of_settled {statement : Stmt} {statements : List Stmt} {outside : Nat}
    {machine after : Machine}
    (hrun : discard (statement.run rounds) machine = (.ok (), after))
    (hdepth : outside < after.scopes.depth) (hcalm : after.leaving = false) :
    runAll rounds outside (statement :: statements) machine =
      runAll rounds outside statements after := by
  have hstop : Eval.mustStop outside after = (.ok false, after) := by
    change (Except.ok (decide (after.scopes.depth ≤ outside) || after.leaving), after) = _
    rw [hcalm, decide_eq_false (Nat.not_le.2 hdepth)]
    rfl
  rw [runAll, bind_of_ok hrun, bind_of_ok hstop]
  rfl

theorem runAll_cons_of_leaving {statement : Stmt} {statements : List Stmt} {outside : Nat}
    {machine after : Machine}
    (hrun : discard (statement.run rounds) machine = (.ok (), after))
    (hleaving : after.leaving = true) :
    runAll rounds outside (statement :: statements) machine = (.ok (), after) := by
  have hstop : Eval.mustStop outside after = (.ok true, after) := by
    change (Except.ok (decide (after.scopes.depth ≤ outside) || after.leaving), after) = _
    rw [hleaving, Bool.or_true]
  rw [runAll, bind_of_ok hrun, bind_of_ok hstop]
  rfl

theorem runAll_mirrors {statements : List Stmt}
    (h : ∀ statement ∈ statements,
      Tracks true (statement.run rounds) (Balanced.runStmt rounds statement))
    (machine : Machine) {frame : Frame} {outer : List Frame} (hcalm : machine.leaving = false)
    (hframes : machine.scopes.frames = frame :: outer) (hblock : frame.kind = .block) :
    Mirrors true (runAll rounds outer.length statements machine)
      ((Balanced.runAll rounds statements machine).1,
        (Balanced.runAll rounds statements machine).2.withScopes
          ((Balanced.runAll rounds statements machine).2.scopes.truncate outer.length)) := by
  induction statements generalizing machine frame outer with
  | nil => exact .settled _ hcalm
  | cons statement statements ih =>
    have hstatement := (h statement (List.mem_cons_self ..)).discard machine hcalm
    have hkeeps := (Balanced.runStmt_keeps rounds statement).discard machine
    generalize hrun : discard (statement.run rounds) machine = first at hstatement
    generalize hbalanced : discard (Balanced.runStmt rounds statement) machine = first' at *
    obtain ⟨ending, after⟩ := first'
    obtain ⟨frame', outer', hframes', hkind, -, houter⟩ := hframes ▸ hkeeps.frames
    have hlength : outer.length = outer'.length := (Frames.length_eq_of_shapes_eq houter).symm
    have hdropped : after.scopes.truncate outer.length = ⟨outer'⟩ := by
      rw [hlength, ← Frames.truncate_append [frame'] outer', List.singleton_append, ← hframes']
    cases hstatement with
    | settled result calm =>
      have hdepth : outer.length < after.scopes.depth := by
        rw [Scopes.depth, hframes', hlength]
        exact Nat.lt_succ_self _
      rw [runAll_cons_of_settled rounds hrun hdepth calm, Balanced.runAll, bind_of_ok hbalanced,
        hlength]
      exact ih (fun later hmem ↦ h later (List.mem_cons_of_mem _ hmem)) after calm hframes'
        (hkind.trans hblock)
    | leaving result output caught unwound =>
      rw [runAll_cons_of_leaving rounds hrun rfl, Balanced.runAll, bind_of_error hbalanced,
        hdropped]
      exact (Mirrors.leaving () output caught unwound).pass hframes' (hkind.trans hblock)
    | halted reason extra held output caught =>
      rw [runAll, bind_of_error hrun, Balanced.runAll, bind_of_error hbalanced, hdropped]
      exact (Mirrors.halted reason extra held output caught).pass hframes' (hkind.trans hblock)

theorem inBlock_tracks {statements : List Stmt}
    (h : ∀ statement ∈ statements,
      Tracks true (statement.run rounds) (Balanced.runStmt rounds statement)) :
    Tracks true (Eval.inBlock fun outside ↦ runAll rounds outside statements)
      (Balanced.within .block (Balanced.runAll rounds statements)) := by
  intro machine hcalm
  exact runAll_mirrors rounds h (machine.withScopes (machine.scopes.push .block)) hcalm rfl rfl

theorem runArm_tracks {statements : List Stmt} {rest : Eval Unit}
    {rest' : Structured Machine Unit}
    (h : ∀ statement ∈ statements,
      Tracks true (statement.run rounds) (Balanced.runStmt rounds statement))
    (hrest : Tracks false rest rest') :
    Tracks false (do if ← runArm rounds statements then return () else rest)
      (do Balanced.runAll rounds statements; rest') := by
  induction statements with
  | nil =>
    rw [runArm, Balanced.runAll]
    exact hrest
  | cons statement statements ih =>
    intro machine hcalm
    have hstatement := (h statement (List.mem_cons_self ..)).discard machine hcalm
    have hlater := ih fun later hmem ↦ h later (List.mem_cons_of_mem _ hmem)
    generalize hrun : discard (statement.run rounds) machine = first at hstatement
    generalize hbalanced : discard (Balanced.runStmt rounds statement) machine = first'
      at hstatement
    rw [runArm, Balanced.runAll]
    simp only [bind_assoc]
    cases hstatement with
    | @settled result after calm =>
      have htake : Eval.takeLeaving after = (.ok false, after) := by
        obtain ⟨scopes, leaving, output, caught⟩ := after
        obtain rfl : leaving = false := calm
        rfl
      rw [bind_of_ok hrun, bind_of_ok hbalanced, bind_of_ok htake]
      exact hlater after calm
    | leaving result output caught unwound =>
      rw [bind_of_ok hrun, bind_of_error hbalanced]
      exact .leaving () output caught unwound
    | halted reason extra held output caught =>
      rw [bind_of_error hrun, bind_of_error hbalanced]
      exact .halted reason extra held output caught

theorem runArms_tracks {arms : List (Arm Stmt)}
    (h : ∀ arm ∈ arms, ∀ statement ∈ arm.statements,
      Tracks true (statement.run rounds) (Balanced.runStmt rounds statement)) (skipped : Nat) :
    Tracks false (runArms rounds skipped arms) (Balanced.runArms rounds skipped arms) := by
  induction arms generalizing skipped with
  | nil =>
    rw [runArms, Balanced.runArms]
    exact fun machine hcalm ↦ .settled () hcalm
  | cons arm arms ih =>
    have hlater := ih fun later hmem ↦ h later (List.mem_cons_of_mem _ hmem)
    cases skipped with
    | succ skipped =>
      rw [runArms, Balanced.runArms]
      exact hlater skipped
    | zero =>
      rw [runArms, Balanced.runArms]
      exact runArm_tracks rounds (h arm (List.mem_cons_self ..)) (hlater 0)

theorem runAlternative_tracks {alternative : Alternative}
    (h : ∀ statement ∈ alternative.branches,
      Tracks true (statement.run rounds) (Balanced.runStmt rounds statement)) :
    Tracks true (alternative.run rounds) (Balanced.runAlternative rounds alternative) := by
  induction alternative using Alternative.induction with
  | none =>
    rw [Alternative.run, Balanced.runAlternative]
    exact fun machine hcalm ↦ .settled () hcalm
  | otherwise body =>
    rw [Alternative.run, Balanced.runAlternative]
    exact (h body (List.mem_cons_self ..)).discard
  | elseWhen condition body rest ih =>
    rw [Alternative.run, Balanced.runAlternative]
    refine Tracks.bind_ofEval condition.test_keeps fun holds ↦ ?_
    split
    · exact (h body (List.mem_cons_self ..)).discard
    · exact ih fun later hmem ↦ h later (List.mem_cons_of_mem _ hmem)

/-- Every statement is tracked by its balanced run. -/
theorem run_tracks (statement : Stmt) :
    Tracks true (statement.run rounds) (Balanced.runStmt rounds statement) := by
  have hkeeps := Balanced.runStmt_keeps rounds
  induction statement using Stmt.induction with
  | expression value =>
    rw [Stmt.run, Balanced.runStmt]
    exact tracks_ofEval value.eval_keeps
  | declare name value =>
    cases value with
    | none =>
      rw [Stmt.run, Balanced.runStmt]
      exact tracks_ofEval ((Eval.declare_keeps name .null).bind fun _ ↦ .pure _)
    | some value =>
      rw [Stmt.run, Balanced.runStmt]
      refine tracks_ofEval (value.eval_keeps.bind fun result ↦ ?_)
      exact (Eval.declare_keeps name result).bind fun _ ↦ .pure _
  | block statements ih =>
    rw [Stmt.run, Balanced.runStmt]
    exact (inBlock_tracks rounds ih).map fun _ ↦ Value.null
  | when condition body rest ihbody ihrest =>
    rw [Stmt.run, Balanced.runStmt]
    refine Tracks.bind_ofEval condition.test_keeps fun holds ↦ ?_
    split
    · exact ihbody.discard.map fun _ ↦ Value.null
    · exact (runAlternative_tracks rounds ihrest).map fun _ ↦ Value.null
  | loop condition body ih =>
    rw [Stmt.run, Balanced.runStmt]
    exact (repeatWhile_tracks condition.test_keeps ih.discard (hkeeps body).discard rounds).map
      fun _ ↦ Value.null
  | switch subject arms ih =>
    rw [Stmt.run, Balanced.runStmt]
    refine Tracks.map ?_ fun _ ↦ Value.null
    exact switch_tracks subject arms (runArms_tracks rounds ih)
      (Balanced.runArms_keeps rounds fun _ _ statement _ ↦ hkeeps statement)
  | leave =>
    rw [Stmt.run, Balanced.runStmt]
    exact leave_tracks.map fun _ ↦ Value.null
  | attempt body binding handler ihbody ihhandler =>
    rw [Stmt.run, Balanced.runStmt]
    refine Tracks.map ?_ fun _ ↦ Value.null
    exact attempt_tracks binding (inBlock_tracks rounds ihbody) (Balanced.body_keeps rounds body)
      (inBlock_tracks rounds ihhandler) (Balanced.body_keeps rounds handler)
  | throw value =>
    rw [Stmt.run, Balanced.runStmt]
    exact tracks_ofEval (value.eval_keeps.bind fun _ ↦ fun machine ↦ refl_of _ machine)
  | print value =>
    rw [Stmt.run, Balanced.runStmt]
    refine tracks_ofEval (value.eval_keeps.bind fun result ↦ ?_)
    exact (Eval.print_keeps _).bind fun _ ↦ .pure _

theorem runProgram_tracks (program : List Stmt) :
    Tracks true (runProgram rounds program)
      (Balanced.within .block (Balanced.runAll rounds program)) :=
  inBlock_tracks rounds fun statement _ ↦ run_tracks rounds statement

end Programs

end Unwinding

end Slang
