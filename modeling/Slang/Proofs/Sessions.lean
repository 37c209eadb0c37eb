import Slang.Proofs.FrameDiscipline
import Slang.Proofs.Refinement

/-!
# Several runs on one machine

A run that ends normally gives the machine back as it found it, but a run that fails leaves the
frames that were open. Later runs cannot tell a machine from a fresh one exactly if it is clear: no
`dip` is pending and every frame is a block without variables. So runs are independent of each other
as long as all of them end normally, and what a failed run leaves open decides about the runs behind
it.
-/

namespace Slang

open Stateful

/-- The sink as it answers from now on. -/
def Output.remaining (output : Output) : Sink := fun calls ↦
  output.sink (calls ++ output.calls)

theorem Frame.eq_of_shape {frame : Frame} {kind : FrameKind} (h : frame.shape = (kind, [])) :
    frame = ⟨kind, []⟩ := by
  obtain ⟨kind', bindings⟩ := frame
  obtain ⟨rfl, hnames⟩ : kind' = kind ∧ bindings.map Prod.fst = [] := Prod.mk.inj h
  rw [List.map_eq_nil_iff.1 hnames]

namespace Machine

/-- No `dip` is pending and every frame is a block without variables. -/
def IsClear (machine : Machine) : Prop :=
  machine.leaving = false ∧ ∀ frame ∈ machine.scopes.frames, frame = ⟨.block, []⟩

/-- A program ends on a machine as it does alone on a fresh one whose sink answers in the same way,
and calls the sink with the same lines. -/
def RunsAlone (rounds : Nat) (program : List Stmt) (machine : Machine) : Prop :=
  let alone := runProgram rounds program (Machine.ofSink machine.output.remaining)
  (runProgram rounds program machine).1 = alone.1 ∧
    (runProgram rounds program machine).2.output.calls =
      alone.2.output.calls ++ machine.output.calls

theorem isClear_ofSink (sink : Sink) : (Machine.ofSink sink).IsClear :=
  ⟨rfl, by simp [Machine.ofSink, Scopes.initial]⟩

/-! ## A clear machine is as good as a fresh one -/

/-- Blocks without variables show nothing, and a `dip` cannot stop at them. -/
theorem exists_shows_nil {frames : List Frame} (h : ∀ frame ∈ frames, frame = ⟨.block, []⟩) :
    ∃ layout, Layout.context layout = .none ∧ Shows layout frames [] := by
  induction frames with
  | nil => exact ⟨[], rfl, .nil⟩
  | cons frame frames ih =>
    obtain rfl := h frame (List.mem_cons_self ..)
    obtain ⟨layout, hcontext, hshows⟩ :=
      ih fun other hother ↦ h other (List.mem_cons_of_mem _ hother)
    exact ⟨⟨.block, false⟩ :: layout, hcontext, .empty .block hshows⟩

theorem IsClear.agrees {machine : Machine} (h : machine.IsClear) :
    ∃ layout, Layout.context layout = .none ∧
      Agrees layout ⟨machine.output.calls, machine.caught⟩ machine
        ⟨[], .ofSink machine.output.remaining, []⟩ := by
  obtain ⟨layout, hcontext, hshows⟩ := exists_shows_nil h.2
  exact ⟨layout, hcontext, hshows, ⟨fun _ ↦ rfl, rfl⟩, rfl⟩

theorem IsClear.runsAlone {machine : Machine} (h : machine.IsClear) (rounds : Nat)
    {program : List Stmt} (hplaced : ∀ statement ∈ program, statement.Placed) :
    machine.RunsAlone rounds program := by
  obtain ⟨layout, hcontext, hagrees⟩ := h.agrees
  obtain ⟨hending, houtput, -⟩ := Refinement.runProgram_refines rounds hplaced hcontext hagrees h.1
  obtain ⟨halone, houtput', -⟩ := Refinement.runProgram_refines rounds hplaced rfl
    (agrees_ofSink machine.output.remaining) rfl
  refine ⟨Exit.mapError_halt_injective (hending.symm.trans halone), ?_⟩
  rw [houtput.calls, houtput'.calls, List.append_nil]

/-- A program that ends normally leaves a clear machine clear. -/
theorem IsClear.after_ok {machine after : Machine} (h : machine.IsClear) {rounds : Nat}
    {program : List Stmt} (hrun : runProgram rounds program machine = (.ok (), after)) :
    after.IsClear := by
  have hblocks : ¬ Frames.HasTarget machine.scopes.frames := by
    rintro ⟨frame, hmem, hkind⟩
    rw [h.2 frame hmem] at hkind
    exact hkind rfl
  obtain ⟨hcalm, hshapes⟩ := runProgram_settles h.1 hblocks hrun
  refine ⟨hcalm, fun frame hmem ↦ ?_⟩
  have hshape : frame.shape ∈ Frames.shapes machine.scopes.frames :=
    hshapes ▸ List.mem_map_of_mem hmem
  obtain ⟨frame', hmem', hshape'⟩ := List.mem_map.1 hshape
  rw [h.2 frame' hmem'] at hshape'
  exact Frame.eq_of_shape hshape'.symm

/-! ## What else a program can tell -/

theorem runProgram_apply (rounds : Nat) (program : List Stmt) (machine : Machine) :
    runProgram rounds program machine =
      runAll rounds machine.scopes.depth program
        (machine.withScopes (machine.scopes.push .block)) :=
  rfl

/-- Behind a pending `dip` only the first statement runs. -/
theorem leaving_eq_false_of_runsAlone {machine : Machine}
    (h : machine.RunsAlone 0 [.expression (.string ""), .throw (.string "")]) :
    machine.leaving = false := by
  by_contra hcalm
  let pushed := machine.withScopes (machine.scopes.push .block)
  have hleaving : pushed.leaving = true := eq_true_of_ne_false hcalm
  have hrun : (runProgram 0 [.expression (.string ""), .throw (.string "")] machine).1 =
      .ok () := by
    rw [runProgram_apply]
    exact congrArg Prod.fst (Unwinding.runAll_cons_of_leaving 0 rfl hleaving)
  cases hrun.symm.trans h.1

/-- A `dip` outside all constructs fails unless a frame of one is left. -/
theorem not_hasTarget_of_runsAlone {machine : Machine} (hcalm : machine.leaving = false)
    (h : machine.RunsAlone 0 [.leave]) : ¬ Frames.HasTarget machine.scopes.frames := by
  intro htarget
  have hpushed : Frames.HasTarget (machine.scopes.push .block).frames := by
    obtain ⟨frame, hmem, hkind⟩ := htarget
    exact ⟨frame, List.mem_cons_of_mem _ hmem, hkind⟩
  have hbalanced : (Balanced.within .block (Balanced.runAll 0 [.leave]) machine).1 =
      .error .leave := by
    have hleave : Balanced.leave (machine.withScopes (machine.scopes.push .block)) =
        (.error .leave, machine.withScopes (machine.scopes.push .block)) := by
      have hunwind : (machine.withScopes (machine.scopes.push .block)).scopes.unwind? = some _ :=
        Frames.unwind?_of_hasTarget hpushed
      rw [Balanced.leave, hunwind]
    rw [Balanced.within, Balanced.runAll, Balanced.runStmt, Refinement.discard_null,
      bind_of_error hleave]
  have hmirrors := Unwinding.runProgram_tracks 0 [.leave] machine hcalm
  have hending := h.1
  generalize Balanced.within .block (Balanced.runAll 0 [.leave]) machine = balanced at *
  generalize runProgram 0 [.leave] machine = ending at *
  cases hmirrors with
  | settled result calm => cases hbalanced
  | leaving result output caught unwound => cases hending
  | halted reason extra held output caught => cases hbalanced

theorem get?_eq_none_of_runsAlone {machine : Machine} (hcalm : machine.leaving = false)
    {name : String} (h : machine.RunsAlone 0 [.expression (.identifier name)]) :
    machine.scopes.get? name = none := by
  by_contra hsome
  obtain ⟨value, hvalue⟩ := Option.ne_none_iff_exists'.1 hsome
  let pushed := machine.withScopes (machine.scopes.push .block)
  have hlookup : Eval.lookup name pushed = (.ok value, pushed) :=
    Eval.lookup_of_some ((Scopes.get?_push name .block machine.scopes).trans hvalue)
  have hfirst : discard (Stmt.run 0 (.expression (.identifier name))) pushed =
      (.ok (), pushed) := by
    rw [discard_eq_bind, Stmt.run, Expr.eval, bind_of_ok hlookup]
    rfl
  have hdepth : machine.scopes.depth < pushed.scopes.depth := Nat.lt_succ_self _
  have hrun : (runProgram 0 [.expression (.identifier name)] machine).1 = .ok () := by
    rw [runProgram_apply, Unwinding.runAll_cons_of_settled 0 hfirst hdepth hcalm]
    rfl
  cases hrun.symm.trans h.1

theorem isClear_of_runsAlone {machine : Machine}
    (h : ∀ program : List Stmt, (∀ statement ∈ program, statement.Placed) →
      machine.RunsAlone 0 program) : machine.IsClear := by
  have hcalm : machine.leaving = false := by
    refine leaving_eq_false_of_runsAlone (h _ fun statement hmem ↦ ?_)
    rcases List.mem_cons.1 hmem with rfl | hmem
    · exact .expression _
    · rw [List.mem_singleton.1 hmem]
      exact .throw _
  have hblocks : ¬ Frames.HasTarget machine.scopes.frames := by
    refine not_hasTarget_of_runsAlone hcalm (h _ fun statement hmem ↦ ?_)
    rw [List.mem_singleton.1 hmem]
    exact .leave
  have hunknown (name : String) : machine.scopes.get? name = none := by
    refine get?_eq_none_of_runsAlone hcalm (h _ fun statement hmem ↦ ?_)
    rw [List.mem_singleton.1 hmem]
    exact .expression _
  refine ⟨hcalm, fun frame hmem ↦ ?_⟩
  have hkind : frame.kind = .block := by
    by_contra hkind
    exact hblocks ⟨frame, hmem, hkind⟩
  have hnames : frame.names = [] := by
    refine List.eq_nil_iff_forall_not_mem.2 fun name hname ↦ ?_
    have hnone : frame.get? name = none := List.findSome?_eq_none_iff.1 (hunknown name) frame hmem
    rw [Frame.mem_names_iff, hnone] at hname
    cases hname
  exact Frame.eq_of_shape (Prod.ext hkind hnames)

end Machine

/-- A fresh machine has run clean source texts to their ends, one after another. The outcomes are
listed with the latest first. -/
inductive Session (sink : Sink) : List (Except Fault Unit) → Machine → Prop
  | fresh : Session sink [] (Machine.ofSink sink)
  | run {outcomes : List (Except Fault Unit)} {machine after : Machine}
      (before : Session sink outcomes machine) (rounds : Nat) (colors : Option Painter)
      (source : String) (clean : (parse colors source).diagnostics = [])
      (outcome : Except Fault Unit)
      (ends : runProgram rounds (parse colors source).body machine =
        (outcome.mapError .fault, after)) :
    Session sink (outcome :: outcomes) after

theorem Session.isClear {sink : Sink} {outcomes : List (Except Fault Unit)} {machine : Machine}
    (h : Session sink outcomes machine) (hok : ∀ outcome ∈ outcomes, outcome = .ok ()) :
    machine.IsClear := by
  induction h with
  | fresh => exact Machine.isClear_ofSink sink
  | run before rounds colors source clean outcome ends ih =>
    obtain rfl := hok outcome (List.mem_cons_self ..)
    exact (ih fun other hother ↦ hok other (List.mem_cons_of_mem _ hother)).after_ok ends

/-- Behind any session, every program runs as if it ran alone on a fresh machine if and only if the
session has left the machine clear. In particular every clean source text does then, and a session
of runs that all ended normally leaves the machine clear. -/
theorem laterRuns_alone_iff_isClear {sink : Sink} {outcomes : List (Except Fault Unit)}
    {machine : Machine} (hsession : Session sink outcomes machine) :
    ((∀ (rounds : Nat) (program : List Stmt), (∀ statement ∈ program, statement.Placed) →
        machine.RunsAlone rounds program) ↔ machine.IsClear) ∧
      (machine.IsClear → ∀ (rounds : Nat) (colors : Option Painter) (source : String),
        (parse colors source).diagnostics = [] →
          machine.RunsAlone rounds (parse colors source).body) ∧
      ((∀ outcome ∈ outcomes, outcome = .ok ()) → machine.IsClear) := by
  refine ⟨⟨fun halone ↦ ?_, fun hclear rounds program hplaced ↦ ?_⟩, ?_, hsession.isClear⟩
  · exact Machine.isClear_of_runsAlone (halone 0)
  · exact hclear.runsAlone rounds hplaced
  · intro hclear rounds colors source hclean
    exact hclear.runsAlone rounds (parse_placed hclean)

/-- A run that fails leaves its variable to the next run, which prints it, although alone it would
fail. -/
theorem failedRun_leaves_variable :
    ∃ machine, Session .accepting [.error (.thrown "null")] machine ∧ ¬ machine.IsClear ∧
      (¬ ∀ (rounds : Nat) (program : List Stmt), (∀ statement ∈ program, statement.Placed) →
        machine.RunsAlone rounds program) ∧
      (parse none "alpha g;").diagnostics = [] ∧
      (runProgram 1 (parse none "alpha g;").body machine).1 = .ok () ∧
      (runProgram 1 (parse none "alpha g;").body machine).2.output.lines = ["null"] ∧
      (runProgram 1 (parse none "alpha g;").body (Machine.ofSink .accepting)).1 =
        .error (.fault (.undefinedVariable "g")) := by
  have hfirst : (parse none "fanum_tax g; yeet g;").body =
      [.declare "g" none, .throw (.identifier "g")] := rfl
  have hsecond : (parse none "alpha g;").body = [.print (.identifier "g")] := rfl
  have hsession : Session .accepting [.error (.thrown "null")]
      ⟨⟨[⟨.block, [("g", .null)]⟩, ⟨.block, []⟩]⟩, false, .ofSink .accepting, []⟩ := by
    refine .run .fresh 1 none "fanum_tax g; yeet g;" rfl (.error (.thrown "null")) ?_
    rw [hfirst]
    rfl
  have hunclear : ¬ Machine.IsClear
      ⟨⟨[⟨.block, [("g", .null)]⟩, ⟨.block, []⟩]⟩, false, .ofSink .accepting, []⟩ := by
    intro hclear
    cases hclear.2 _ (List.mem_cons_self ..)
  refine ⟨_, hsession, hunclear, ?_, rfl, ?_⟩
  · rw [(laterRuns_alone_iff_isClear hsession).1]
    exact hunclear
  · rw [hsecond]
    exact ⟨rfl, rfl, rfl⟩

end Slang
