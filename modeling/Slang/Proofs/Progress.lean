import Slang.Proofs.Lexemes
import Slang.Proofs.StatementRuns
import Slang.Proofs.WrittenReports

/-!
# Parsing makes progress and ends

None of the limits of the parsers is ever reached. From every state of a text each loop and each
descent ends without limits as it does with them, a statement takes a token unless the text has
ended, and reading a program takes every token of the text once, in order, up to the end.
-/

namespace Slang

open Parser

namespace ParseState

/-- The loops and descents of the parsers end at a state as the bounded ones do, if the limit
exceeds the number of tokens left. -/
structure EndsWithin (limit : Nat) (state : ParseState) : Prop where
  synchronize : Unbounded.synchronize state = some (Parser.synchronize state)
  skipSemicolons : Unbounded.skipSemicolons state = some (Parser.skipSemicolons state)
  expression : ∀ minimum, Unbounded.expression minimum state =
    some (expressionWithin limit minimum state)
  continuations : ∀ minimum operand, Unbounded.continuations minimum operand state =
    some (Parser.continuations (expressionWithin limit) limit minimum operand state)
  arguments : Unbounded.arguments [] state =
    some (Parser.arguments (expressionWithin limit) limit state)
  statement : ∀ mayDeclare, Unbounded.statement mayDeclare state =
    some (statementWithin limit mayDeclare state)
  alternative : Unbounded.alternative state =
    some (Parser.alternative (statementWithin limit) limit limit state)
  body : Unbounded.body state = some (Parser.body (statementWithin limit) limit state)
  labels : ∀ defaultSeen, Unbounded.labels ⟨[], false, defaultSeen⟩ state =
    some (Parser.labels limit defaultSeen state)
  armStatements : Unbounded.statements .arm [] state =
    some (statements (armStatement (statementWithin limit)) endsArm limit state)
  switch : Unbounded.switch state = some (Parser.switch (statementWithin limit) limit state)

theorem Ended.endsWithin {state : ParseState} (hended : state.Ended) {limit : Nat}
    (hlimit : state.remaining < limit) : state.EndsWithin limit := by
  have hinner := expressionWithin_runs limit
  have hstatement := statementWithin_runs limit
  have hlimit' := Nat.le_refl limit
  exact
    { synchronize := (synchronize_runsAt hended).1
      skipSemicolons := (skipWhile_runs _ rfl hended).1
      expression := fun minimum ↦ (hinner minimum state hended hlimit).1
      continuations := fun minimum operand ↦
        (continuations_runs hinner minimum operand state hended hlimit).1
      arguments := (arguments_runs hinner state hended hlimit).1
      statement := fun mayDeclare ↦ (hstatement mayDeclare state hended hlimit).1
      alternative := (alternative_runs hstatement hlimit' hlimit' hlimit' state hended hlimit).1
      body := (body_runs hstatement hlimit' state hended hlimit).1
      labels := fun _ ↦ (labelsRound_runs hlimit' hlimit' hlimit' _ state hended hlimit).1
      armStatements := (statementsRound_runs (armStatement_elementRuns hstatement) hlimit' []
        state hended hlimit).1
      switch := (switch_runs hstatement hlimit' true state hended hlimit).1 }

end ParseState

namespace Parser

open ParseState

/-- A statement takes a token, unless the text has ended. -/
theorem statement_takes (mayDeclare : Bool) {state : ParseState} (hended : state.Ended) :
    ∃ taken, state.Takes taken (statement mayDeclare state).2 ∧
      (state.current.kind ≠ .eof → taken ≠ []) := by
  obtain ⟨-, taken, hleast, htakes, -⟩ :=
    statementWithin_runs _ mayDeclare state hended (Nat.lt_succ_self state.remaining)
  refine ⟨taken, htakes, fun hcurrent ↦ ?_⟩
  rw [if_neg hcurrent] at hleast
  exact List.length_pos_iff.1 hleast

/-- With enough rounds a statement list is read up to a token that ends it. -/
theorem ends_statementsRound {place : Place} {element : Parser Stmt} {limit rounds : Nat}
    (helement : ElementRuns limit place element) (before : List Stmt) {state : ParseState}
    (hended : state.Ended) (hlimit : state.remaining < limit) (hrounds : state.remaining < rounds) :
    place.ends (iterate (statementsRound element place.ends) rounds before state).2.current.kind =
      true := by
  induction rounds generalizing before state with
  | zero => cases hrounds
  | succ rounds ih =>
    cases hends : place.ends state.current.kind with
    | true => rwa [statementsRound_of_ends hends]
    | false =>
      have hfirst := helement state hended hlimit
      have hremaining := hfirst.remaining_add_le
      rw [if_neg (Place.ne_eof hends)] at hremaining
      have hlimit' : (element state).2.remaining < limit := by omega
      have hrounds' : (element state).2.remaining < rounds := by omega
      rw [statementsRound_of_more hends]
      exact ih _ (hfirst.ended hended) hlimit' hrounds'

/-- Reading a program leaves the end of the text in view, and what was recorded is handed over. If
that is nothing, the tokens taken spell the program. -/
theorem program_takes {state : ParseState} (hended : state.Ended) :
    Unbounded.program state = some (program state) ∧
      ∃ taken after, state.Takes taken after ∧ after.current.kind = .eof ∧
        (program state).1.diagnostics = after.diagnostics ∧
        (program state).1.report = after.report? ∧
        (program state).2 = after.handedOver ∧
        (after.diagnostics = [] → Spells (.statements .program [] (program state).1.body)
          (taken.map Token.kind) .eof) := by
  have hlimit := Nat.lt_succ_self state.remaining
  have hstatement := statementWithin_runs (state.remaining + 1)
  have helement : ElementRuns (state.remaining + 1) .program
      (statementWithin (state.remaining + 1) true) :=
    statement_elementRuns hstatement (by decide)
  obtain ⟨hends, taken, -, htakes, hspells⟩ :=
    statementsRound_runs helement (Nat.le_refl _) [] state hended hlimit
  have hlast := of_decide_eq_true (ends_statementsRound helement [] hended hlimit hlimit)
  refine ⟨?_, taken, _, htakes, hlast, rfl, rfl, rfl, fun hclean ↦ hlast ▸ hspells hclean⟩
  rw [Unbounded.program, Unbounded.bind_of_eq hends]
  rfl

end Parser

open ParseState

/-- A parse is what the parser without limits gives. -/
theorem parse_of_unbounded {colors : Option Painter} {source : String} {body : List Stmt}
    {after : ParseState}
    (h : Unbounded.statements .program [] (.ofSource colors source) = some (body, after)) :
    parse colors source = ⟨body, after.diagnostics, after.report?⟩ := by
  have hprogram := (program_takes (ofSource_ended colors source)).1
  rw [Unbounded.program, Unbounded.bind_of_eq h] at hprogram
  exact congrArg Prod.fst (Option.some.inj hprogram).symm

section Report

variable (colors : Option Painter) (source : String)

theorem exists_parse_isWritten :
    ∃ after : ParseState, after.IsWritten colors (linesOf source) ∧
      (parse colors source).diagnostics = after.diagnostics ∧
      (parse colors source).report = after.report? := by
  obtain ⟨-, taken, after, htakes, -, hdiagnostics, hreport, -⟩ :=
    program_takes (ofSource_ended colors source)
  exact ⟨after, (isWritten_ofSource colors source).of_takes htakes, hdiagnostics, hreport⟩

/-- Whether there is a report does not depend on its colours. -/
theorem report_parse_eq_none_iff :
    (parse colors source).report = none ↔ (parse colors source).diagnostics = [] := by
  obtain ⟨after, hwritten, hdiagnostics, hreport⟩ := exists_parse_isWritten colors source
  rw [hreport, hdiagnostics]
  exact hwritten.report?_eq_none_iff

theorem report_parse_of_diagnostics {colors : Option Painter} {source : String}
    (h : (parse colors source).diagnostics ≠ []) :
    (parse colors source).report =
      some (renderAll colors (linesOf source) (parse colors source).diagnostics) := by
  obtain ⟨after, hwritten, hdiagnostics, hreport⟩ := exists_parse_isWritten colors source
  rw [hdiagnostics] at h ⊢
  rw [hreport]
  exact hwritten.report?_of_diagnostics h

theorem parse_of_clean {colors : Option Painter} {source : String}
    (h : (parse colors source).diagnostics = []) :
    parse colors source = ⟨(parse colors source).body, [], none⟩ := by
  have hreport := (report_parse_eq_none_iff colors source).2 h
  generalize parse colors source = parsed at h hreport
  obtain ⟨body, diagnostics, report⟩ := parsed
  cases h
  cases hreport
  rfl

end Report

/-- In every state that a text can lead to, the loops and descents end and a statement takes a
token unless the text has ended. Reading the whole text takes each of its tokens once, in order. -/
theorem parsing_ends (colors : Option Painter) (source : String) :
    (∀ taken state, (ofSource colors source).Takes taken state →
      (∀ limit, state.remaining < limit → state.EndsWithin limit) ∧
      ∀ mayDeclare, ∃ more, state.Takes more (statement mayDeclare state).2 ∧
        (state.current.kind ≠ .eof → more ≠ [])) ∧
    Unbounded.program (.ofSource colors source) = some (program (.ofSource colors source)) ∧
    ∃ taken after, (ofSource colors source).Takes taken after ∧ after.current.kind = .eof ∧
      Cursor.tokensOf source = taken ++ [after.current] ∧
      (parse colors source).diagnostics = after.diagnostics ∧
      (program (.ofSource colors source)).2 =
        ⟨after.current, [], [], "", after.colors, after.lines⟩ := by
  have hended := ofSource_ended colors source
  refine ⟨fun taken state htakes ↦ ?_, (program_takes hended).1, ?_⟩
  · have hstate := htakes.ended hended
    exact ⟨fun limit ↦ hstate.endsWithin, fun mayDeclare ↦ statement_takes mayDeclare hstate⟩
  · obtain ⟨-, taken, after, htakes, heof, hdiagnostics, -, hfinal, -⟩ := program_takes hended
    have hupcoming : after.upcoming = [] :=
      List.eq_nil_of_length_eq_zero ((htakes.ended hended).current_eq_eof_iff.1 heof)
    refine ⟨taken, after, htakes, heof, ?_, hdiagnostics, hupcoming ▸ hfinal⟩
    rw [← tokens_ofSource colors, htakes.tokens_eq, tokens, hupcoming]
    rfl

/-- A brace that closes nothing begins no statement, and is taken all the same. -/
theorem strayBrace_taken :
    (ofSource none "\x7d dip").current.kind = .mark .closeBrace ∧
      ∃ taken, (ofSource none "\x7d dip").Takes taken
          (statement true (ofSource none "\x7d dip")).2 ∧
        taken ≠ [] := by
  have hcurrent : (ofSource none "\x7d dip").current.kind = .mark .closeBrace := by decide +kernel
  obtain ⟨hstates, -⟩ := parsing_ends none "\x7d dip"
  obtain ⟨taken, htakes, htaken⟩ := (hstates [] _ .refl).2 true
  exact ⟨hcurrent, taken, htakes, htaken (by rw [hcurrent]; exact TokenKind.noConfusion)⟩

end Slang
