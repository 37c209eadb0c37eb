import Mathlib.Data.List.Induction
import Slang.Parse.Statement
import Slang.Proofs.Rounds

/-!
# Sinks that refuse lines

A run can tell whether its sink refuses a line only by failing at it. So as long as a sink accepts
every line, a run goes as it does with a sink that accepts all lines. The first line that is refused
is the last one of a program without attempts, since nothing else takes a fault in.
-/

namespace Slang

open Stateful

namespace Output

@[simp] theorem length_calls_printAll (lines : List String) (output : Output) :
    (output.printAll lines).calls.length = output.calls.length + lines.length := by
  induction lines generalizing output with
  | nil => rfl
  | cons line lines ih =>
    refine (ih (output.print line).2).trans ?_
    simp only [print, List.length_cons]
    omega

theorem lines_prefix_of_calls_suffix {before after : Output} (h : before.calls <:+ after.calls) :
    before.lines <+: after.lines :=
  (List.reverse_prefix.2 (h.filter _)).map _

/-- The output behind lines of which the sink accepts all. -/
def recorded (lines : List String) : Output :=
  (ofSink .accepting).printAll lines

/-- The output behind lines of which the sink refuses all but the first `limit`. -/
def limited (limit : Nat) (message : String) (lines : List String) : Output :=
  (ofSink (.refusing (fun made ↦ limit ≤ made) message)).printAll lines

theorem recorded_concat (lines : List String) (line : String) :
    recorded (lines ++ [line]) = ((recorded lines).print line).2 :=
  printAll_append lines [line] _

theorem limited_concat (limit : Nat) (message : String) (lines : List String) (line : String) :
    limited limit message (lines ++ [line]) = ((limited limit message lines).print line).2 :=
  printAll_append lines [line] _

theorem refusal_recorded (lines : List String) (line : String) :
    ((recorded lines).print line).1.refusal = none := by
  simp only [print, recorded, sink_printAll]
  rfl

theorem refusal_limited (limit : Nat) (message : String) (lines : List String) (line : String) :
    ((limited limit message lines).print line).1.refusal =
      if limit ≤ lines.length then some message else none := by
  simp [print, limited, ofSink, Sink.refusing]

theorem length_calls_recorded (lines : List String) :
    (recorded lines).calls.length = lines.length := by
  simp [recorded, ofSink]

theorem length_calls_limited (limit : Nat) (message : String) (lines : List String) :
    (limited limit message lines).calls.length = lines.length := by
  simp [limited, ofSink]

theorem lines_recorded (lines : List String) : (recorded lines).lines = lines := by
  induction lines using List.reverseRecOn with
  | nil => rfl
  | append_singleton lines line ih =>
    rw [recorded_concat, lines_print, refusal_recorded, ih]
    rfl

theorem lines_limited (limit : Nat) (message : String) (lines : List String) :
    (limited limit message lines).lines = lines.take limit := by
  induction lines using List.reverseRecOn with
  | nil => exact List.take_nil.symm
  | append_singleton lines line ih =>
    rw [limited_concat, lines_print, refusal_limited, ih]
    by_cases h : limit ≤ lines.length
    · rw [if_pos h, List.take_append_of_le_length h]
      exact List.append_nil _
    · rw [if_neg h, List.take_of_length_le (by omega), List.take_of_length_le (by simp; omega)]
      rfl

end Output

namespace Eval

variable (limit : Nat) (message : String) {Result Next : Type}

/-- With a sink that refuses all but the first `limit` lines, a computation ends as with one that
accepts all lines, if there are no more lines than that, and else fails at the line behind them. -/
structure EndsAtLimit (Result : Type) (computation computation' : Eval Result) : Prop where
  prints : Preserves Machine.Prints computation
  ends : ∀ (machine : Machine) (lines : List String), lines.length ≤ limit →
    let accepted := computation (machine.withOutput (.recorded lines))
    let refused := computation' (machine.withOutput (.limited limit message lines))
    ∃ printed, accepted.2.output = .recorded printed ∧
      if printed.length ≤ limit then
        refused = (accepted.1, accepted.2.withOutput (.limited limit message printed))
      else refused.1 = .error (.fault (.output message)) ∧
        refused.2.output = .limited limit message (printed.take (limit + 1))

namespace EndsAtLimit

variable {limit message}

theorem of_silent {computation : Eval Result} (h : Silent computation) :
    EndsAtLimit limit message Result computation computation := by
  refine ⟨h.prints, fun machine lines hlines ↦ ⟨lines, h.output_eq _, ?_⟩⟩
  rw [if_pos hlines]
  exact h (machine.withOutput (.recorded lines)) (.limited limit message lines)

theorem of_print (line : String) : EndsAtLimit limit message Unit (print line) (print line) := by
  refine ⟨print_prints line, fun machine lines hlines ↦ ⟨lines ++ [line], ?_, ?_⟩⟩
  · rw [print_apply]
    exact (Output.recorded_concat lines line).symm
  have haccepted : ((machine.withOutput (.recorded lines)).output.print line).1.refusal = none :=
    Output.refusal_recorded lines line
  have hrefused :
      ((machine.withOutput (.limited limit message lines)).output.print line).1.refusal =
        if limit ≤ lines.length then some message else none :=
    Output.refusal_limited limit message lines line
  rw [print_apply, print_apply, haccepted, hrefused, List.length_append, List.length_singleton]
  by_cases hfew : lines.length + 1 ≤ limit
  · rw [if_pos hfew, if_neg (by omega), Output.limited_concat]
    rfl
  · rw [if_neg hfew, if_pos (by omega), List.take_of_length_le (by simp; omega),
      Output.limited_concat]
    exact ⟨rfl, rfl⟩

theorem bind {first first' : Eval Result} {next next' : Result → Eval Next}
    (hfirst : EndsAtLimit limit message Result first first')
    (hnext : ∀ result, EndsAtLimit limit message Next (next result) (next' result)) :
    EndsAtLimit limit message Next (first >>= next) (first' >>= next') := by
  refine ⟨hfirst.prints.bind fun result ↦ (hnext result).prints, fun machine lines hlines ↦ ?_⟩
  obtain ⟨printed, houtput, hends⟩ := hfirst.ends machine lines hlines
  rcases haccepted : first (machine.withOutput (.recorded lines)) with ⟨outcome, after⟩
  rw [haccepted] at houtput hends
  dsimp only at houtput hends ⊢
  split at hends
  · rename_i hfew
    cases outcome with
    | error reason =>
      rw [bind_of_error haccepted, bind_of_error hends]
      exact ⟨printed, houtput, if_pos hfew ▸ rfl⟩
    | ok result =>
      rw [bind_of_ok haccepted, bind_of_ok hends]
      have hafter : after.withOutput (.recorded printed) = after := by
        rw [← houtput]
        rfl
      have hlater := (hnext result).ends after printed hfew
      rwa [hafter] at hlater
  · -- The other run has failed, so all that matters is that this one takes no line back.
    rename_i hmany
    have hbehind : Machine.Prints (first (machine.withOutput (.recorded lines))).2
        ((first >>= next) (machine.withOutput (.recorded lines))).2 :=
      Preserves.bind_behind first (fun result ↦ (hnext result).prints) _
    obtain ⟨more, hmore⟩ := hbehind
    rw [haccepted, houtput] at hmore
    refine ⟨printed ++ more, ?_, ?_⟩
    · rw [hmore, Output.recorded, Output.recorded, Output.printAll_append]
    · rcases hrefused : first' (machine.withOutput (.limited limit message lines)) with
        ⟨outcome', after'⟩
      rw [hrefused] at hends
      obtain ⟨rfl, houtput'⟩ : outcome' = .error (.fault (.output message)) ∧ _ := hends
      rw [if_neg (by rw [List.length_append]; omega), bind_of_error hrefused,
        List.take_append_of_le_length (by omega)]
      exact ⟨rfl, houtput'⟩

theorem sequential : Sequential (EndsAtLimit limit message) where
  silent := of_silent
  print := of_print
  bind := bind

end EndsAtLimit

end Eval

theorem runProgram_endsAtLimit {program : List Stmt} (hattempts : anyHasAttempt program = false)
    (limit : Nat) (message : String) (rounds : Nat) :
    let recording := runProgram rounds program (Machine.ofSink .accepting)
    let failing := runProgram rounds program
      (Machine.ofSink (.refusing (fun made ↦ limit ≤ made) message))
    ∃ printed, recording.2.output = .recorded printed ∧
      if printed.length ≤ limit then
        failing = (recording.1, recording.2.withOutput (.limited limit message printed))
      else failing.1 = .error (.fault (.output message)) ∧
        failing.2.output = .limited limit message (printed.take (limit + 1)) := by
  have hends : Eval.EndsAtLimit limit message Unit (runProgram rounds program)
      (runProgram rounds program) :=
    (Eval.EndsAtLimit.sequential.comparison rounds).runProgram fun h ↦
      Bool.noConfusion (hattempts.symm.trans h)
  exact hends.ends (Machine.ofSink .accepting) [] (Nat.zero_le limit)

/-- A sink that refuses every call behind the first `limit` ones cuts the output of a program
without attempts, and nothing else. If with some number of rounds the program prints more lines to a
sink that accepts them all, whether it ends then or not, then with these or more rounds it fails
with the message of the refusal, behind the first `limit` of these lines and one call more.
Otherwise the two runs print the same lines and end in the same way. -/
theorem refusal_cuts_output {program : List Stmt} (hattempts : anyHasAttempt program = false)
    (limit : Nat) (message : String) (rounds : Nat) :
    let recording := runProgram rounds program (Machine.ofSink .accepting)
    let failing rounds := runProgram rounds program
      (Machine.ofSink (.refusing (fun made ↦ limit ≤ made) message))
    (limit < recording.2.output.calls.length → ∀ more, rounds ≤ more →
      (failing more).1 = .error (.fault (.output message)) ∧
        (failing more).2.output.lines = recording.2.output.lines.take limit ∧
        (failing more).2.output.calls.length = limit + 1) ∧
    (recording.2.output.calls.length ≤ limit →
      (failing rounds).1 = recording.1 ∧
        (failing rounds).2.output.lines = recording.2.output.lines) := by
  obtain ⟨printed, hprinted, hsame⟩ := runProgram_endsAtLimit hattempts limit message rounds
  dsimp only
  rw [hprinted, Output.length_calls_recorded, Output.lines_recorded]
  refine ⟨fun hmany more hmore ↦ ?_, fun hfew ↦ ?_⟩
  · obtain ⟨printed', hprinted', hcut⟩ := runProgram_endsAtLimit hattempts limit message more
    have hprefix : printed <+: printed' := by
      have hsuffix := calls_runProgram_suffix hmore program (Machine.ofSink .accepting)
      rw [hprinted, hprinted'] at hsuffix
      have hlines := Output.lines_prefix_of_calls_suffix hsuffix
      rwa [Output.lines_recorded, Output.lines_recorded] at hlines
    have hlength := hprefix.length_le
    rw [if_neg (by omega)] at hcut
    refine ⟨hcut.1, ?_, ?_⟩
    · obtain ⟨extra, rfl⟩ := hprefix
      rw [hcut.2, Output.lines_limited, List.take_take, Nat.min_eq_left (Nat.le_succ limit),
        List.take_append_of_le_length hmany.le]
    · rw [hcut.2, Output.length_calls_limited, List.length_take]
      omega
  · rw [if_pos hfew] at hsame
    rw [hsame]
    refine ⟨rfl, ?_⟩
    exact (Output.lines_limited limit message printed).trans (List.take_of_length_le hfew)

/-- A program that never ends and prints in every round. -/
def endlessLoop : String :=
  "vibe_check ('on') alpha 'x';"

/-- With three rounds the loop is cut off behind three lines. A sink that refuses all calls but the
first stops it at the second, with any larger number of rounds. -/
theorem endlessLoop_refused :
    let program := (parse none endlessLoop).body
    let failing := runProgram 5 program (Machine.ofSink (.refusing (fun made ↦ 1 ≤ made) "full"))
    (parse none endlessLoop).diagnostics = [] ∧ anyHasAttempt program = false ∧
      (runProgram 3 program (Machine.ofSink .accepting)).1 = .error .outOfRounds ∧
      failing.1 = .error (.fault (.output "full")) ∧ failing.2.output.lines = ["x"] ∧
      failing.2.output.calls.length = 2 := by
  have hclean : (parse none endlessLoop).diagnostics = [] := by rfl
  have hbody : (parse none endlessLoop).body = [.loop (.string "on") (.print (.string "x"))] := by
    rfl
  dsimp only
  rw [hbody]
  have hattempts : anyHasAttempt [.loop (.string "on") (.print (.string "x"))] = false := rfl
  obtain ⟨hfault, hlines, hcalls⟩ :=
    (refusal_cuts_output hattempts 1 "full" 3).1 (by decide) 5 (by decide)
  exact ⟨hclean, hattempts, rfl, hfault, hlines, hcalls⟩

end Slang
