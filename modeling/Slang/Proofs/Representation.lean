import Slang.Proofs.Balanced
import Slang.Proofs.Reference

/-!
# Frames that show scopes

The frames of a machine show a chain of scopes: those of bodies and handlers hold the variables of
one scope each, and those of loops, switches and attempts hold none. Which frame is which is fixed
by a layout. Whatever reads or changes variables then does the same to the frames as to the chain,
and what a `dip` finds among the frames is a matter of the layout alone.
-/

namespace Slang

open Stateful Structured

/-! ## Variables of one frame -/

namespace Frame

theorem get?_mk_cons (kind : FrameKind) (entry : String × Value) (bindings : List (String × Value))
    (name : String) :
    get? name ⟨kind, entry :: bindings⟩ =
      if name = entry.1 then some entry.2 else get? name ⟨kind, bindings⟩ := by
  rw [get?, List.lookup_cons]
  by_cases h : name = entry.1
  · simp [h]
  · rw [beq_false_of_ne h, if_neg h]
    rfl

theorem mem_names_iff (name : String) (frame : Frame) :
    name ∈ frame.names ↔ (frame.get? name).isSome = true := by
  obtain ⟨kind, bindings⟩ := frame
  induction bindings with
  | nil => simp [names, get?]
  | cons entry bindings ih =>
    have hnames : (⟨kind, entry :: bindings⟩ : Frame).names =
        entry.1 :: (⟨kind, bindings⟩ : Frame).names := rfl
    rw [hnames, get?_mk_cons, List.mem_cons, ih]
    by_cases h : name = entry.1 <;> simp [h]

theorem get?_insert (name : String) (value : Value) (frame : Frame) :
    ((frame.insert name value).get? ·) = Function.update (frame.get? ·) name (some value) := by
  funext other
  rw [Function.update_apply, insert, get?_mk_cons]

theorem get?_update {name : String} (value : Value) {frame : Frame} (h : name ∈ frame.names) :
    ((frame.update name value).get? ·) = Function.update (frame.get? ·) name (some value) := by
  funext other
  have hall : (frame.update name value).get? other =
      if other = name then (frame.get? name).map fun _ ↦ value else frame.get? other := by
    clear h
    obtain ⟨kind, bindings⟩ := frame
    induction bindings with
    | nil => simp [update, get?]
    | cons entry bindings ih =>
      simp only [update, List.map_cons, get?_mk_cons] at ih ⊢
      by_cases hentry : entry.1 = name <;> grind
  obtain ⟨old, hold⟩ := Option.isSome_iff_exists.1 ((mem_names_iff name frame).1 h)
  rw [hall, Function.update_apply, hold, Option.map_some]

end Frame

/-- A frame without the name is passed over. -/
theorem Scopes.assign_of_not_mem {name : String} {value : Value} {frame : Frame}
    {frames : List Frame} (hmem : name ∉ frame.names) :
    assign name value ⟨frame :: frames⟩ =
      (assign name value ⟨frames⟩).map fun scopes ↦ ⟨frame :: scopes.frames⟩ := by
  simp only [assign, updateFirst?, if_neg hmem]
  cases updateFirst? name value frames <;> rfl

/-! ## Layouts -/

/-- A place for one frame. -/
structure Slot where
  kind : FrameKind
  /-- Whether the frame holds the variables of a scope. Other frames have none. -/
  isScope : Bool

abbrev Layout := List Slot

namespace Layout

/-- What encloses a statement that runs on frames with this layout. -/
def context : Layout → Reference.Context
  | [] => .none
  | slot :: outer =>
    match slot.kind with
    | .block => context outer
    | .attempt => (context outer).inAttempt
    | .loop | .switch => .breakable

theorem any_isBreakable_iff (layout : Layout) :
    layout.any (·.kind.isBreakable) = true ↔ layout.context = .breakable := by
  induction layout with
  | nil => simp [context]
  | cons slot outer ih =>
    obtain ⟨kind, isScope⟩ := slot
    cases kind <;> simp [context, FrameKind.isBreakable, ← ih]

theorem exists_ne_block_iff (layout : Layout) :
    (∃ slot ∈ layout, slot.kind ≠ .block) ↔ layout.context ≠ .none := by
  induction layout with
  | nil => simp [context]
  | cons slot outer ih =>
    obtain ⟨kind, isScope⟩ := slot
    cases kind <;> simp [context, ← ih]

end Layout

/-- The frames have the layout, and those that hold variables hold the scopes of the chain. -/
inductive Shows : Layout → List Frame → Reference.Chain → Prop
  | nil : Shows [] [] []
  | scope (frame : Frame) {layout : Layout} {frames : List Frame} {chain : Reference.Chain}
      (outer : Shows layout frames chain) :
    Shows (⟨frame.kind, true⟩ :: layout) (frame :: frames) ((frame.get? ·) :: chain)
  | empty (kind : FrameKind) {layout : Layout} {frames : List Frame} {chain : Reference.Chain}
      (outer : Shows layout frames chain) :
    Shows (⟨kind, false⟩ :: layout) (⟨kind, []⟩ :: frames) chain

namespace Shows

variable {layout : Layout} {frames : List Frame} {chain : Reference.Chain}

theorem length_eq (h : Shows layout frames chain) : frames.length = layout.length := by
  induction h with
  | nil => rfl
  | scope frame outer ih => simp [ih]
  | empty kind outer ih => simp [ih]

theorem kinds_eq (h : Shows layout frames chain) :
    Frames.kinds frames = layout.map Slot.kind := by
  induction h with
  | nil => rfl
  | scope frame outer ih => rw [Frames.kinds_cons, ih, List.map_cons]
  | empty kind outer ih => rw [Frames.kinds_cons, ih, List.map_cons]

theorem isBreakable_iff (h : Shows layout frames chain) :
    Scopes.isBreakable ⟨frames⟩ = true ↔ layout.context = .breakable := by
  have hkinds : Scopes.isBreakable ⟨frames⟩ = (Frames.kinds frames).any FrameKind.isBreakable := by
    rw [Frames.kinds, List.any_map]
    rfl
  rw [hkinds, h.kinds_eq, ← Layout.any_isBreakable_iff, List.any_map]
  rfl

theorem hasTarget_iff (h : Shows layout frames chain) :
    Frames.HasTarget frames ↔ layout.context ≠ .none := by
  rw [Frames.hasTarget_iff_kinds, h.kinds_eq, ← Layout.exists_ne_block_iff]
  simp

theorem get?_eq (h : Shows layout frames chain) (name : String) :
    Scopes.get? name ⟨frames⟩ = Reference.lookup name chain := by
  induction h with
  | nil => rfl
  | scope frame outer ih =>
    unfold Scopes.get? Reference.lookup at ih ⊢
    rw [List.findSome?_cons, List.findSome?_cons, ih]
  | empty kind outer ih => exact ih

/-- Dropping the innermost frame drops its scope, if it has one. -/
theorem truncate {slot : Slot} (h : Shows (slot :: layout) frames chain) :
    Shows layout (Scopes.truncate layout.length ⟨frames⟩).frames
      (if slot.isScope then chain.tail else chain) := by
  have hdrop (frame : Frame) {outer : List Frame} {rest : Reference.Chain}
      (houter : Shows layout outer rest) :
      (Scopes.truncate layout.length ⟨frame :: outer⟩).frames = outer := by
    rw [← houter.length_eq]
    exact congrArg Scopes.frames (Frames.truncate_append [frame] outer)
  cases h with
  | scope frame outer =>
    rw [hdrop frame outer]
    exact outer
  | empty kind outer =>
    rw [hdrop ⟨kind, []⟩ outer]
    exact outer

end Shows

/-- Two attempts to change variables: both succeed, and the frames show the chain, or both fail
with the same fault. -/
inductive Matches (layout : Layout) : Except Fault Scopes → Except Fault Reference.Chain → Prop
  | ok {frames : List Frame} {chain : Reference.Chain} (shown : Shows layout frames chain) :
    Matches layout (.ok ⟨frames⟩) (.ok chain)
  | error (fault : Fault) : Matches layout (.error fault) (.error fault)

namespace Shows

variable {layout : Layout} {frames : List Frame} {chain : Reference.Chain}

theorem assign_matches (h : Shows layout frames chain) (name : String) (value : Value) :
    Matches layout (Scopes.assign name value ⟨frames⟩) (Reference.assign name value chain) := by
  induction h with
  | nil => exact .error _
  | @scope frame layout frames chain outer ih =>
    rw [Reference.assign]
    by_cases hmem : name ∈ frame.names
    · rw [Scopes.assign, Scopes.updateFirst?, if_pos hmem,
        if_pos ((frame.mem_names_iff name).1 hmem), ← Frame.get?_update value hmem]
      exact .ok (.scope (frame.update name value) outer)
    · rw [Scopes.assign_of_not_mem hmem,
        if_neg fun hsome ↦ hmem ((frame.mem_names_iff name).2 hsome)]
      generalize Scopes.assign name value ⟨frames⟩ = assigned at ih ⊢
      generalize Reference.assign name value chain = assigned' at ih ⊢
      cases ih with
      | ok shown => exact .ok (.scope frame shown)
      | error fault => exact .error fault
  | @empty kind layout frames chain outer ih =>
    have hmem : name ∉ (⟨kind, []⟩ : Frame).names := List.not_mem_nil
    rw [Scopes.assign_of_not_mem hmem]
    generalize Scopes.assign name value ⟨frames⟩ = assigned at ih ⊢
    generalize Reference.assign name value chain = assigned' at ih ⊢
    cases ih with
    | ok shown => exact .ok (.empty kind shown)
    | error fault => exact .error fault

theorem declare_matches {kind : FrameKind} (h : Shows (⟨kind, true⟩ :: layout) frames chain)
    (name : String) (value : Value) :
    Matches (⟨kind, true⟩ :: layout) (Scopes.declare name value ⟨frames⟩)
      (Reference.declare name value chain) := by
  cases h with
  | scope frame outer =>
    simp only [Scopes.declare, Reference.declare]
    by_cases hmem : name ∈ frame.names
    · rw [if_pos hmem, if_pos ((frame.mem_names_iff name).1 hmem)]
      exact .error _
    · rw [if_neg hmem, if_neg fun hsome ↦ hmem ((frame.mem_names_iff name).2 hsome),
        ← Frame.get?_insert]
      exact .ok (.scope (frame.insert name value) outer)

end Shows

/-! ## Machines and stores -/

/-- An output with calls made in the past goes on as a recent one that began without any. -/
structure Output.Continues (past : List PrintCall) (output recent : Output) : Prop where
  sink : ∀ calls, recent.sink calls = output.sink (calls ++ past)
  calls : output.calls = recent.calls ++ past

namespace Output.Continues

variable {past : List PrintCall} {output recent : Output}

theorem print_call (h : output.Continues past recent) (line : String) :
    (output.print line).1 = (recent.print line).1 := by
  rw [print, print, h.calls, h.sink]

theorem print (h : output.Continues past recent) (line : String) :
    (output.print line).2.Continues past (recent.print line).2 := by
  refine ⟨h.sink, ?_⟩
  calc (output.print line).2.calls = (output.print line).1 :: output.calls := rfl
    _ = (recent.print line).1 :: (recent.calls ++ past) := by rw [h.print_call, h.calls]

theorem eq_of_nil (h : output.Continues [] recent) : output = recent := by
  have hsink : output.sink = recent.sink := by
    funext calls
    rw [h.sink, List.append_nil]
  have hcalls : output.calls = recent.calls := by
    rw [h.calls, List.append_nil]
  calc output = ⟨output.sink, output.calls⟩ := rfl
    _ = ⟨recent.sink, recent.calls⟩ := by rw [hsink, hcalls]

end Output.Continues

/-- What a machine had printed and caught before the runs that are looked at. -/
structure Past where
  calls : List PrintCall
  caught : List Fault

/-- The variables of a machine are those of the store, and so is what it has printed and caught
since. -/
structure Agrees (layout : Layout) (past : Past) (machine : Machine) (store : Reference.Store) :
    Prop where
  shown : Shows layout machine.scopes.frames store.chain
  output : machine.output.Continues past.calls store.output
  caught : machine.caught = store.caught ++ past.caught

namespace Agrees

open Slang.Balanced (ofEval within)

variable {layout : Layout} {past : Past} {Result Next : Type}

theorem ofEval_bind (computation : Eval Result) (next : Result → Eval Next) :
    ofEval (computation >>= next) = ofEval computation >>= fun result ↦ ofEval (next result) := by
  funext machine
  rcases hrun : computation machine with ⟨ending, after⟩
  have hfirst : ofEval computation machine = (ending.mapError .halt, after) := by
    rw [ofEval, hrun]
  cases ending with
  | error reason =>
    rw [bind_of_error hfirst, ofEval, bind_of_error hrun]
    rfl
  | ok result =>
    rw [bind_of_ok hfirst, ofEval, bind_of_ok hrun]
    rfl

theorem fail_simulates (fault : Fault) :
    Simulates (Agrees layout past) (ofEval (Eval.fail fault : Eval Result))
      (Reference.fail fault) :=
  fun _ _ hagrees ↦ ⟨rfl, hagrees⟩

theorem ofExcept_simulates (outcome : Except Fault Result) :
    Simulates (Agrees layout past) (ofEval (Eval.ofExcept outcome))
      (Reference.ofExcept outcome) := by
  cases outcome with
  | error fault => exact fail_simulates fault
  | ok result => exact .pure result

theorem lookup_simulates (name : String) :
    Simulates (Agrees layout past) (ofEval (Eval.lookup name)) (Reference.read name) := by
  intro machine store hagrees
  have hvalue := hagrees.shown.get?_eq name
  rw [ofEval, Reference.read]
  cases hlookup : Reference.lookup name store.chain with
  | none =>
    rw [Eval.lookup_of_none (hvalue.trans hlookup)]
    exact ⟨rfl, hagrees⟩
  | some value =>
    rw [Eval.lookup_of_some (hvalue.trans hlookup)]
    exact ⟨rfl, hagrees⟩

theorem change_simulates {step : Scopes → Except Fault Scopes}
    {step' : Reference.Chain → Except Fault Reference.Chain}
    (h : ∀ frames chain, Shows layout frames chain → Matches layout (step ⟨frames⟩) (step' chain)) :
    Simulates (Agrees layout past) (ofEval (Eval.tryScopes step)) (Reference.change step') := by
  intro machine store hagrees
  have hmatches : Matches layout (step machine.scopes) (step' store.chain) :=
    h _ _ hagrees.shown
  rw [ofEval, Reference.change]
  generalize hstep : step machine.scopes = outcome at hmatches
  generalize step' store.chain = outcome' at hmatches ⊢
  cases hmatches with
  | ok shown =>
    rw [Eval.tryScopes_of_ok hstep]
    exact ⟨rfl, shown, hagrees.output, hagrees.caught⟩
  | error fault =>
    rw [Eval.tryScopes_of_error hstep]
    exact ⟨rfl, hagrees⟩

theorem print_simulates (line : String) :
    Simulates (Agrees layout past) (ofEval (Eval.print line)) (Reference.print line) := by
  intro machine store hagrees
  rw [ofEval, Eval.print_apply, Reference.print, hagrees.output.print_call]
  refine ⟨?_, hagrees.shown, hagrees.output.print line, hagrees.caught⟩
  cases (store.output.print line).1.refusal <;> rfl

/-- A frame without variables stands for nothing. -/
theorem within_simulates {kind : FrameKind} {body : Structured Machine Result}
    {body' : Structured Reference.Store Result}
    (h : Simulates (Agrees (⟨kind, false⟩ :: layout) past) body body') :
    Simulates (Agrees layout past) (within kind body) body' := by
  intro machine store hagrees
  have hpushed : Agrees (⟨kind, false⟩ :: layout) past
      (machine.withScopes (machine.scopes.push kind)) store :=
    ⟨.empty kind hagrees.shown, hagrees.output, hagrees.caught⟩
  obtain ⟨hending, hafter⟩ := h _ _ hpushed
  refine ⟨hending, ?_, hafter.output, hafter.caught⟩
  have hdepth : machine.scopes.depth = layout.length := hagrees.shown.length_eq
  rw [within, hdepth]
  exact hafter.shown.truncate

/-- A frame for variables stands for a scope, and both are dropped in the end. -/
theorem within_simulates_under {kind : FrameKind} {body : Structured Machine Result}
    {body' : Structured Reference.Store Result}
    (h : Simulates (Agrees (⟨kind, true⟩ :: layout) past) body body') :
    Simulates (Agrees layout past) (within kind body)
      (Reference.under Reference.noVariables body') := by
  intro machine store hagrees
  have hpushed : Agrees (⟨kind, true⟩ :: layout) past
      (machine.withScopes (machine.scopes.push kind))
      ⟨Reference.noVariables :: store.chain, store.output, store.caught⟩ :=
    ⟨.scope ⟨kind, []⟩ hagrees.shown, hagrees.output, hagrees.caught⟩
  obtain ⟨hending, hafter⟩ := h _ _ hpushed
  refine ⟨hending, ?_, hafter.output, hafter.caught⟩
  have hdepth : machine.scopes.depth = layout.length := hagrees.shown.length_eq
  rw [within, hdepth]
  exact hafter.shown.truncate

end Agrees

end Slang
