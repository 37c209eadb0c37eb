import Slang.Proofs.Comparisons
import Slang.Proofs.Unwinding

/-!
# More rounds

The number of rounds decides about nothing but where a run is cut off. With more rounds, a run that
was not cut off ends in the same way and on the same machine, and one that was first prints what it
had printed before.
-/

namespace Slang

open Stateful

theorem Output.calls_suffix_printAll (lines : List String) (output : Output) :
    output.calls <:+ (output.printAll lines).calls := by
  induction lines generalizing output with
  | nil => exact List.suffix_rfl
  | cons line lines ih => exact (List.suffix_cons _ _).trans (ih (output.print line).2)

theorem Machine.Prints.calls_suffix {before after : Machine} (h : Prints before after) :
    before.output.calls <:+ after.output.calls := by
  obtain ⟨lines, houtput⟩ := h
  rw [houtput]
  exact Output.calls_suffix_printAll lines before.output

namespace Eval

variable {Result Next : Type}

/-- The computation `long` ends as `short` does, unless `short` is cut off for want of rounds. Then
`long` has printed what `short` has printed, and perhaps more. -/
structure Extends (Result : Type) (short long : Eval Result) : Prop where
  prints : Preserves Machine.Prints long
  ends : ∀ machine, long machine = short machine ∨
    (short machine).1 = .error .outOfRounds ∧ Machine.Prints (short machine).2 (long machine).2

namespace Extends

theorem of_silent {computation : Eval Result} (h : Silent computation) :
    Extends Result computation computation :=
  ⟨h.prints, fun _ ↦ .inl rfl⟩

theorem bind {short long : Eval Result} {next next' : Result → Eval Next}
    (hfirst : Extends Result short long)
    (hnext : ∀ result, Extends Next (next result) (next' result)) :
    Extends Next (short >>= next) (long >>= next') := by
  refine ⟨hfirst.prints.bind fun result ↦ (hnext result).prints, fun machine ↦ ?_⟩
  rcases hfirst.ends machine with hsame | ⟨hcut, hprints⟩
  · rcases hshort : short machine with ⟨reason | result, after⟩
    · rw [bind_of_error hshort, bind_of_error (hsame.trans hshort)]
      exact .inl rfl
    · rw [bind_of_ok hshort, bind_of_ok (hsame.trans hshort)]
      exact (hnext result).ends after
  · rcases hshort : short machine with ⟨outcome, after⟩
    rw [hshort] at hcut hprints
    obtain rfl : outcome = .error .outOfRounds := hcut
    have hbehind : Machine.Prints (long machine).2 ((long >>= next') machine).2 :=
      Preserves.bind_behind long (fun result ↦ (hnext result).prints) machine
    rw [bind_of_error hshort]
    exact .inr ⟨rfl, trans_of Machine.Prints hprints hbehind⟩

theorem sequential : Sequential Extends where
  silent := of_silent
  print line := ⟨print_prints line, fun _ ↦ .inl rfl⟩
  bind := bind

theorem repeatWhile_prints {test : Eval Bool} {body : Eval Unit}
    (htest : Preserves Machine.Prints test) (hbody : Preserves Machine.Prints body) (rounds : Nat) :
    Preserves Machine.Prints (repeatWhile test body rounds) := by
  have hself {Value : Type} {computation : Eval Value} (h : Preserves Machine.Prints computation) :
      Extends Value computation computation :=
    ⟨h, fun _ ↦ .inl rfl⟩
  exact ((sequential.comparison rounds).repeatWhile (hself htest) (hself hbody)).prints

theorem comparison {rounds more : Nat} (h : rounds ≤ more) : Comparison rounds more Extends where
  toSequential := sequential
  repeatWhile htest hbody := by
    induction rounds generalizing more with
    | zero =>
      have hprints := repeatWhile_prints htest.prints hbody.prints more
      exact ⟨hprints, fun machine ↦ .inr ⟨rfl, hprints machine⟩⟩
    | succ rounds ih =>
      obtain ⟨more, rfl⟩ : ∃ fewer, more = fewer + 1 := ⟨more - 1, by omega⟩
      exact sequential.repeatWhile_succ htest hbody (ih (Nat.le_of_succ_le_succ h))

/-- What follows the body of an attempt does nothing to the output but print. -/
theorem attempt_prints_behind (body : Eval Unit) (binding : String) {handler : Eval Unit}
    (hhandler : Preserves Machine.Prints handler) (machine : Machine) :
    Machine.Prints (body (machine.withScopes (machine.scopes.push .attempt))).2
      (attempt body binding handler machine).2 := by
  rcases hbody : body (machine.withScopes (machine.scopes.push .attempt)) with
    ⟨(fault | _) | _, after⟩
  · have hrescue : Preserves Machine.Prints (do
        tryScopes (Scopes.declare binding (.text fault.message))
        handler
        truncate machine.scopes.depth) := by
      refine (tryScopes_silent _).prints.bind fun _ ↦ hhandler.bind fun _ ↦ ?_
      exact fun _ ↦ ⟨[], rfl⟩
    rw [Unwinding.attempt_of_fault hbody]
    exact hrescue ⟨(after.scopes.truncate machine.scopes.depth).push .block, false, after.output,
      fault :: after.caught⟩
  · rw [Unwinding.attempt_of_outOfRounds hbody]
    exact refl_of _ after
  · rw [Unwinding.attempt_of_ok hbody]
    exact ⟨[], rfl⟩

theorem passesAttempts : PassesAttempts Extends := by
  intro body body' handler handler' binding hbody hhandler
  refine ⟨fun machine ↦ ?_, fun machine ↦ ?_⟩
  · exact trans_of Machine.Prints (hbody.prints (machine.withScopes (machine.scopes.push .attempt)))
      (attempt_prints_behind body' binding hhandler.prints machine)
  rcases hshort : body (machine.withScopes (machine.scopes.push .attempt)) with ⟨outcome, after⟩
  rcases hbody.ends (machine.withScopes (machine.scopes.push .attempt)) with
    hsame | ⟨hcut, hprints⟩
  · have hlong := hsame.trans hshort
    rcases outcome with (fault | _) | _
    · have hrescue : Extends Unit
          (do
            tryScopes (Scopes.declare binding (.text fault.message))
            handler
            truncate machine.scopes.depth)
          (do
            tryScopes (Scopes.declare binding (.text fault.message))
            handler'
            truncate machine.scopes.depth) := by
        refine (of_silent (tryScopes_silent _)).bind fun _ ↦ hhandler.bind fun _ ↦ ?_
        exact of_silent fun _ _ ↦ rfl
      rw [Unwinding.attempt_of_fault hshort, Unwinding.attempt_of_fault hlong]
      exact hrescue.ends _
    · rw [Unwinding.attempt_of_outOfRounds hshort, Unwinding.attempt_of_outOfRounds hlong]
      exact .inl rfl
    · rw [Unwinding.attempt_of_ok hshort, Unwinding.attempt_of_ok hlong]
      exact .inl rfl
  · rw [hshort] at hcut hprints
    obtain rfl : outcome = .error .outOfRounds := hcut
    rw [Unwinding.attempt_of_outOfRounds hshort]
    refine .inr ⟨rfl, ?_⟩
    exact trans_of Machine.Prints hprints
      (attempt_prints_behind body' binding hhandler.prints machine)

end Extends

end Eval

section Programs

variable {rounds more : Nat} (h : rounds ≤ more) (program : List Stmt)
include h

theorem runProgram_extends :
    Eval.Extends Unit (runProgram rounds program) (runProgram more program) :=
  (Eval.Extends.comparison h).runProgram fun _ ↦ Eval.Extends.passesAttempts

/-- More rounds make no difference to a run that was not cut off. -/
theorem runProgram_of_le {machine : Machine}
    (hends : (runProgram rounds program machine).1 ≠ .error .outOfRounds) :
    runProgram more program machine = runProgram rounds program machine := by
  rcases (runProgram_extends h program).ends machine with hsame | ⟨hcut, -⟩
  · exact hsame
  · exact absurd hcut hends

/-- With more rounds, a run calls the sink as before, and then perhaps more often. -/
theorem calls_runProgram_suffix (machine : Machine) :
    (runProgram rounds program machine).2.output.calls <:+
      (runProgram more program machine).2.output.calls := by
  rcases (runProgram_extends h program).ends machine with hsame | ⟨-, hprints⟩
  · exact hsame ▸ List.suffix_rfl
  · exact hprints.calls_suffix

end Programs

end Slang
