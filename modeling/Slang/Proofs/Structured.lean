import Mathlib.Order.Defs.Unbundled
import Slang.Machine

/-!
# Structured computations

A structured computation ends with a value, with a `dip` on its way to the construct it leaves, or
by halting, and its state survives all three. Nothing marks a `dip` in the state: it passes
through a sequence as a failure does, and `stopping` is where it ends.

The state is a parameter. `Preserves` says what one computation does to its state and `Simulates`
compares two computations over different states; both pass through sequences and loops, so that a
proof about an evaluator only has to treat its primitives.
-/

namespace Slang

/-- How a structured computation ends without a value. -/
inductive Exit where
  /-- A `dip` is on its way to the construct it leaves. -/
  | leave
  | halt (reason : Halt)
  deriving Repr, DecidableEq

theorem Exit.mapError_halt_injective :
    Function.Injective (Except.mapError Exit.halt : Except Halt Unit → Except Exit Unit) := by
  intro first second heq
  cases first with
  | error reason =>
    cases second with
    | error other => rw [Exit.halt.inj (Except.error.inj heq)]
    | ok => cases heq
  | ok =>
    cases second with
    | error other => cases heq
    | ok => rfl

abbrev Structured (State : Type) := ExceptT Exit (StateM State)

namespace Stateful

variable {Failure State Result Next : Type}

theorem bind_of_ok {first : ExceptT Failure (StateM State) Result}
    {next : Result → ExceptT Failure (StateM State) Next} {before after : State} {result : Result}
    (h : first before = (.ok result, after)) : (first >>= next) before = next result after := by
  simp only [bind, ExceptT.bind, ExceptT.mk, StateT.bind, h]
  rfl

theorem bind_of_error {first : ExceptT Failure (StateM State) Result}
    {next : Result → ExceptT Failure (StateM State) Next} {before after : State}
    {failure : Failure} (h : first before = (.error failure, after)) :
    (first >>= next) before = (.error failure, after) := by
  simp only [bind, ExceptT.bind, ExceptT.mk, StateT.bind, h]
  rfl

theorem discard_eq_bind (computation : ExceptT Failure (StateM State) Result) :
    discard computation = computation >>= fun _ ↦ pure () :=
  map_eq_pure_bind (fun _ ↦ PUnit.unit) computation

/-- The state behind a computation, however it ends, is related to the one in front of it. -/
def Preserves (relation : State → State → Prop)
    (computation : ExceptT Failure (StateM State) Result) : Prop :=
  ∀ state, relation state (computation state).2

namespace Preserves

variable {relation : State → State → Prop}

theorem pure [Std.Refl relation] (result : Result) :
    Preserves relation (Pure.pure result : ExceptT Failure (StateM State) Result) :=
  fun state ↦ refl_of relation state

theorem throw [Std.Refl relation] (failure : Failure) :
    Preserves relation (MonadExcept.throw failure : ExceptT Failure (StateM State) Result) :=
  fun state ↦ refl_of relation state

theorem bind [IsTrans State relation] {first : ExceptT Failure (StateM State) Result}
    {next : Result → ExceptT Failure (StateM State) Next} (hfirst : Preserves relation first)
    (hnext : ∀ result, Preserves relation (next result)) : Preserves relation (first >>= next) := by
  intro state
  have hbefore := hfirst state
  rcases hrun : first state with ⟨_ | result, after⟩ <;> rw [hrun] at hbefore
  · rw [bind_of_error hrun]
    exact hbefore
  · rw [bind_of_ok hrun]
    exact trans_of relation hbefore (hnext result after)

/-- The state that the first part of a sequence leaves is related to the one behind the sequence. -/
theorem bind_behind [Std.Refl relation] (first : ExceptT Failure (StateM State) Result)
    {next : Result → ExceptT Failure (StateM State) Next}
    (hnext : ∀ result, Preserves relation (next result)) (state : State) :
    relation (first state).2 ((first >>= next) state).2 := by
  rcases hrun : first state with ⟨_ | result, after⟩
  · rw [bind_of_error hrun]
    exact refl_of relation after
  · rw [bind_of_ok hrun]
    exact hnext result after

theorem discard [Std.Refl relation] [IsTrans State relation]
    {computation : ExceptT Failure (StateM State) Result} (h : Preserves relation computation) :
    Preserves relation (Functor.discard computation) := by
  rw [discard_eq_bind]
  exact h.bind fun _ ↦ .pure _

theorem mono {weaker : State → State → Prop} {computation : ExceptT Failure (StateM State) Result}
    (h : Preserves relation computation)
    (hweaker : ∀ before after, relation before after → weaker before after) :
    Preserves weaker computation :=
  fun state ↦ hweaker _ _ (h state)

end Preserves

/-- From related states, two computations end the same way and in related states. -/
def Simulates {Other : Type} (relation : State → Other → Prop)
    (computation : ExceptT Failure (StateM State) Result)
    (reference : ExceptT Failure (StateM Other) Result) : Prop :=
  ∀ state other, relation state other →
    (computation state).1 = (reference other).1 ∧
      relation (computation state).2 (reference other).2

namespace Simulates

variable {Other : Type} {relation : State → Other → Prop}

theorem pure (result : Result) :
    Simulates relation (Pure.pure result : ExceptT Failure (StateM State) Result)
      (Pure.pure result) :=
  fun _ _ hrelated ↦ ⟨rfl, hrelated⟩

theorem throw (failure : Failure) :
    Simulates relation (MonadExcept.throw failure : ExceptT Failure (StateM State) Result)
      (MonadExcept.throw failure) :=
  fun _ _ hrelated ↦ ⟨rfl, hrelated⟩

theorem bind {computation : ExceptT Failure (StateM State) Result}
    {reference : ExceptT Failure (StateM Other) Result}
    {next : Result → ExceptT Failure (StateM State) Next}
    {next' : Result → ExceptT Failure (StateM Other) Next}
    (hfirst : Simulates relation computation reference)
    (hnext : ∀ result, Simulates relation (next result) (next' result)) :
    Simulates relation (computation >>= next) (reference >>= next') := by
  intro state other hrelated
  have hmiddle := hfirst state other hrelated
  rcases hrun : computation state with ⟨ending, after⟩
  rcases hrun' : reference other with ⟨ending', after'⟩
  rw [hrun, hrun'] at hmiddle
  obtain ⟨rfl, hafter⟩ : ending = ending' ∧ relation after after' := hmiddle
  cases ending with
  | error failure =>
    rw [bind_of_error hrun, bind_of_error hrun']
    exact ⟨rfl, hafter⟩
  | ok result =>
    rw [bind_of_ok hrun, bind_of_ok hrun']
    exact hnext result after after' hafter

theorem discard {computation : ExceptT Failure (StateM State) Result}
    {reference : ExceptT Failure (StateM Other) Result}
    (h : Simulates relation computation reference) :
    Simulates relation (Functor.discard computation) (Functor.discard reference) := by
  rw [discard_eq_bind, discard_eq_bind]
  exact h.bind fun _ ↦ .pure _

end Simulates

end Stateful

namespace Structured

open Stateful

variable {State : Type}

/-- Runs a body and says whether a `dip` ended it. -/
def stopping (body : Structured State Unit) : Structured State Bool := fun state ↦
  match body state with
  | (.ok (), after) => (.ok false, after)
  | (.error .leave, after) => (.ok true, after)
  | (.error (.halt reason), after) => (.error (.halt reason), after)

theorem stopping_of_ok {body : Structured State Unit} {before after : State}
    (h : body before = (.ok (), after)) : stopping body before = (.ok false, after) := by
  rw [stopping, h]

theorem stopping_of_leave {body : Structured State Unit} {before after : State}
    (h : body before = (.error .leave, after)) : stopping body before = (.ok true, after) := by
  rw [stopping, h]

theorem stopping_of_halt {body : Structured State Unit} {before after : State} {reason : Halt}
    (h : body before = (.error (.halt reason), after)) :
    stopping body before = (.error (.halt reason), after) := by
  rw [stopping, h]

/-- Tests and runs a loop body in turn, for at most the given number of tests. -/
def repeatWhile (test : Structured State Bool) (body : Structured State Unit) :
    Nat → Structured State Unit
  | 0 => throw (.halt .outOfRounds)
  | rounds + 1 => do
    if ← test then
      if ← stopping body then return ()
      else repeatWhile test body rounds
    else return ()

theorem stopping_preserves {relation : State → State → Prop} {body : Structured State Unit}
    (h : Preserves relation body) : Preserves relation (stopping body) := by
  intro state
  have hafter := h state
  unfold stopping
  split <;> rename_i hrun <;> rwa [hrun] at hafter

theorem repeatWhile_preserves {relation : State → State → Prop} [Std.Refl relation]
    [IsTrans State relation] {test : Structured State Bool} {body : Structured State Unit}
    (htest : Preserves relation test) (hbody : Preserves relation body) (rounds : Nat) :
    Preserves relation (repeatWhile test body rounds) := by
  induction rounds with
  | zero => exact .throw _
  | succ rounds ih =>
    refine htest.bind fun holds ↦ ?_
    split
    · refine (stopping_preserves hbody).bind fun stopped ↦ ?_
      split
      · exact .pure _
      · exact ih
    · exact .pure _

section Simulation

variable {Other : Type} {relation : State → Other → Prop}

theorem stopping_simulates {body : Structured State Unit} {reference : Structured Other Unit}
    (h : Simulates relation body reference) :
    Simulates relation (stopping body) (stopping reference) := by
  intro state other hrelated
  have hbody := h state other hrelated
  rcases hrun : body state with ⟨ending, after⟩
  rcases hrun' : reference other with ⟨ending', after'⟩
  rw [hrun, hrun'] at hbody
  obtain ⟨rfl, hafter⟩ : ending = ending' ∧ relation after after' := hbody
  rcases ending with (_ | reason) | _
  · rw [stopping_of_leave hrun, stopping_of_leave hrun']
    exact ⟨rfl, hafter⟩
  · rw [stopping_of_halt hrun, stopping_of_halt hrun']
    exact ⟨rfl, hafter⟩
  · rw [stopping_of_ok hrun, stopping_of_ok hrun']
    exact ⟨rfl, hafter⟩

theorem repeatWhile_simulates {test : Structured State Bool} {test' : Structured Other Bool}
    {body : Structured State Unit} {body' : Structured Other Unit}
    (htest : Simulates relation test test') (hbody : Simulates relation body body')
    (rounds : Nat) :
    Simulates relation (repeatWhile test body rounds) (repeatWhile test' body' rounds) := by
  induction rounds with
  | zero => exact .throw _
  | succ rounds ih =>
    refine htest.bind fun holds ↦ ?_
    split
    · refine (stopping_simulates hbody).bind fun stopped ↦ ?_
      split
      · exact .pure _
      · exact ih
    · exact .pure _

end Simulation

end Structured

end Slang
