import Slang.Eval.Statement
import Slang.Proofs.Frames
import Slang.Proofs.Structured

/-!
# What the parts of a run do to a machine

Evaluating an expression does nothing to a machine but give variables other values. A declaration
may add a name to the innermost frame, and printing adds to the output; frames come and go, and a
`dip` sets out, only by the constructs that `Eval` has operations for.
-/

namespace Slang

open Stateful

namespace Machine

def withScopes (scopes : Scopes) (machine : Machine) : Machine :=
  ⟨scopes, machine.leaving, machine.output, machine.caught⟩

/-- Nothing but the values of variables has changed. -/
structure Assigns (before after : Machine) : Prop where
  shapes : Frames.shapes after.scopes.frames = Frames.shapes before.scopes.frames
  leaving : after.leaving = before.leaving
  output : after.output = before.output
  caught : after.caught = before.caught

/-- The frames are those from before, the innermost one perhaps with more names, and no `dip` has
set out or arrived. -/
structure Keeps (before after : Machine) : Prop where
  frames : Frames.Grows before.scopes.frames after.scopes.frames
  leaving : after.leaving = before.leaving

instance : Std.Refl Assigns :=
  ⟨fun _ ↦ ⟨rfl, rfl, rfl, rfl⟩⟩

instance : IsTrans Machine Assigns where
  trans _ _ _ h h' := ⟨h'.shapes.trans h.shapes, h'.leaving.trans h.leaving,
    h'.output.trans h.output, h'.caught.trans h.caught⟩

instance : Std.Refl Keeps :=
  ⟨fun machine ↦ ⟨refl_of Frames.Grows machine.scopes.frames, rfl⟩⟩

instance : IsTrans Machine Keeps where
  trans _ _ _ h h' := ⟨trans_of Frames.Grows h.frames h'.frames, h'.leaving.trans h.leaving⟩

theorem Assigns.keeps {before after : Machine} (h : Assigns before after) : Keeps before after :=
  ⟨Frames.grows_of_shapes_eq h.shapes, h.leaving⟩

end Machine

theorem Scopes.eq_of_declare_eq_ok {name : String} {value : Value} {before after : Scopes}
    (h : before.declare name value = .ok after) :
    ∃ frame outer, before.frames = frame :: outer ∧ name ∉ frame.names ∧
      after = ⟨frame.insert name value :: outer⟩ := by
  unfold declare at h
  split at h
  · cases h
  · rename_i frame outer hframes
    split at h
    · cases h
    · rename_i hnew
      exact ⟨frame, outer, hframes, hnew, (Except.ok.inj h).symm⟩

namespace Eval

theorem get_apply (machine : Machine) : (get : Eval Machine) machine = (.ok machine, machine) :=
  rfl

theorem depth_apply (machine : Machine) : depth machine = (.ok machine.scopes.depth, machine) :=
  rfl

theorem push_apply (kind : FrameKind) (machine : Machine) :
    push kind machine = (.ok (), machine.withScopes (machine.scopes.push kind)) :=
  rfl

theorem truncate_apply (depth : Nat) (machine : Machine) :
    truncate depth machine = (.ok (), machine.withScopes (machine.scopes.truncate depth)) :=
  rfl

theorem tryScopes_of_ok {change : Scopes → Except Fault Scopes} {machine : Machine}
    {scopes : Scopes} (h : change machine.scopes = .ok scopes) :
    tryScopes change machine = (.ok (), machine.withScopes scopes) := by
  rw [tryScopes, bind_of_ok (get_apply machine), h]
  rfl

theorem tryScopes_of_error {change : Scopes → Except Fault Scopes} {machine : Machine}
    {fault : Fault} (h : change machine.scopes = .error fault) :
    tryScopes change machine = (.error (.fault fault), machine) := by
  rw [tryScopes, bind_of_ok (get_apply machine), h]
  rfl

theorem lookup_of_some {name : String} {machine : Machine} {value : Value}
    (h : machine.scopes.get? name = some value) :
    lookup name machine = (.ok value, machine) := by
  rw [lookup, bind_of_ok (get_apply machine), h]
  rfl

theorem lookup_of_none {name : String} {machine : Machine}
    (h : machine.scopes.get? name = none) :
    lookup name machine = (.error (.fault (.undefinedVariable name)), machine) := by
  rw [lookup, bind_of_ok (get_apply machine), h]
  rfl

theorem lookup_assigns (name : String) : Preserves Machine.Assigns (lookup name) := by
  intro machine
  cases h : machine.scopes.get? name with
  | none =>
    rw [lookup_of_none h]
    exact refl_of _ machine
  | some value =>
    rw [lookup_of_some h]
    exact refl_of _ machine

theorem assign_assigns (name : String) (value : Value) :
    Preserves Machine.Assigns (tryScopes (Scopes.assign name value)) := by
  intro machine
  cases h : Scopes.updateFirst? name value machine.scopes.frames with
  | none =>
    rw [tryScopes_of_error (by rw [Scopes.assign, h])]
    exact refl_of _ machine
  | some frames =>
    rw [tryScopes_of_ok (by rw [Scopes.assign, h])]
    exact ⟨Frames.shapes_updateFirst? h, rfl, rfl, rfl⟩

theorem declare_keeps (name : String) (value : Value) :
    Preserves Machine.Keeps (tryScopes (Scopes.declare name value)) := by
  intro machine
  cases hdeclare : machine.scopes.declare name value with
  | error fault =>
    rw [tryScopes_of_error hdeclare]
    exact refl_of _ machine
  | ok scopes =>
    rw [tryScopes_of_ok hdeclare]
    obtain ⟨frame, outer, hframes, -, rfl⟩ := Scopes.eq_of_declare_eq_ok hdeclare
    refine ⟨?_, rfl⟩
    rw [hframes]
    exact ⟨frame.insert name value, outer, rfl, rfl, by simp, rfl⟩

theorem ofExcept_assigns {Result : Type} (result : Except Fault Result) :
    Preserves Machine.Assigns (ofExcept result) := by
  cases result with
  | error fault => exact fun machine ↦ refl_of _ machine
  | ok value => exact fun machine ↦ refl_of _ machine

/-- A call of the sink is recorded, whatever the sink makes of it. -/
theorem print_apply (line : String) (machine : Machine) :
    print line machine =
      (match (machine.output.print line).1.refusal with
        | some message => .error (.fault (.output message))
        | none => .ok (),
        ⟨machine.scopes, machine.leaving, (machine.output.print line).2, machine.caught⟩) := by
  change (match (machine.output.print line).1.refusal with
    | some message => fail (.output message)
    | none => pure () : Eval Unit)
      ⟨machine.scopes, machine.leaving, (machine.output.print line).2, machine.caught⟩ = _
  cases (machine.output.print line).1.refusal <;> rfl

theorem print_keeps (line : String) : Preserves Machine.Keeps (print line) := by
  intro machine
  rw [print_apply]
  exact ⟨refl_of _ machine.scopes.frames, rfl⟩

end Eval

theorem Expr.eval_assigns (expr : Expr) : Preserves Machine.Assigns expr.eval := by
  fun_induction Expr.eval with
  | case1 value => exact .pure _
  | case2 contents => exact .pure _
  | case3 name => exact Eval.lookup_assigns name
  | case4 op operand ih => exact ih.bind fun value ↦ Eval.ofExcept_assigns _
  | case5 op left right ihleft ihright =>
    exact ihleft.bind fun first ↦ ihright.bind fun second ↦ Eval.ofExcept_assigns _
  | case6 condition whenTrue whenFalse ihcondition ihtrue ihfalse =>
    refine ihcondition.bind fun value ↦ ?_
    split
    · exact ihtrue
    · exact ihfalse
  | case7 callee arguments ih => exact ih
  | case8 name value ih =>
    refine ih.bind fun result ↦ ?_
    exact (Eval.assign_assigns name result).bind fun _ ↦ .pure _
  | case9 target value => exact fun machine ↦ refl_of _ machine
  | case10 => exact fun machine ↦ refl_of _ machine

theorem Expr.eval_keeps (expr : Expr) : Preserves Machine.Keeps expr.eval :=
  expr.eval_assigns.mono fun _ _ h ↦ h.keeps

theorem Expr.test_assigns (condition : Expr) : Preserves Machine.Assigns condition.test :=
  condition.eval_assigns.bind fun _ ↦ .pure _

theorem Expr.test_keeps (condition : Expr) : Preserves Machine.Keeps condition.test :=
  condition.test_assigns.mono fun _ _ h ↦ h.keeps

namespace Eval

theorem matchesLabel_assigns (subject : Value) (labels : List Expr) :
    Preserves Machine.Assigns (matchesLabel subject labels) := by
  induction labels with
  | nil => exact .pure _
  | cons label labels ih =>
    refine label.eval_assigns.bind fun value ↦ ?_
    split
    · exact .pure _
    · exact ih

theorem selectArm_assigns (subject : Value) (arms : List (Arm Stmt)) (place : Nat)
    (fallback : Option Nat) :
    Preserves Machine.Assigns (selectArm subject arms place fallback) := by
  induction arms generalizing place fallback with
  | nil => exact .pure _
  | cons arm arms ih =>
    refine (matchesLabel_assigns subject arm.labels).bind fun found ↦ ?_
    split
    · exact .pure _
    · exact ih _ _

end Eval

end Slang
