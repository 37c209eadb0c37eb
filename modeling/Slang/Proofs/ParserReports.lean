import Slang.Proofs.Progress
import Slang.Proofs.RawTokens
import Slang.Run

/-!
# What parsers report

A parser only takes tokens and reports problems. What it reports itself is about a token of the
text, at that token's span, and is no lexical problem; the lexical ones come into the record with
the tokens they were found in front of. So the record of a parse is made of two lists, each in its
own order: the parser's own reports, and everything that reading the text reports.
-/

namespace Slang

namespace ParseState

/-- The steps from one state to another, and what is reported on the way: problems that are not
lexical, at the spans of the given tokens. -/
inductive Logs (tokens : List Token) (state : ParseState) : List Diagnostic → ParseState → Prop
  | refl : Logs tokens state [] state
  | shift {logged : List Diagnostic} {after : ParseState}
      (before : Logs tokens state logged after) : Logs tokens state logged after.shift
  | report {logged : List Diagnostic} {after : ParseState}
      (before : Logs tokens state logged after) {problem : Problem}
      (syntactic : problem.isLexical = false) {token : Token} (known : token ∈ tokens) :
      Logs tokens state (logged ++ [⟨problem, token.span, .error⟩])
        (after.record ⟨problem, token.span, .error⟩)

theorem tokens_shift_subset (state : ParseState) : state.shift.tokens ⊆ state.tokens := by
  cases hupcoming : state.upcoming with
  | nil => rw [shift_of_upcoming_nil hupcoming]; exact List.Subset.refl _
  | cons lexeme upcoming =>
    have hpos : 0 < state.remaining := by rw [remaining, hupcoming]; exact Nat.succ_pos _
    rw [tokens_shift_of_remaining_pos hpos]
    exact List.subset_cons_self _ _

namespace Logs

variable {tokens : List Token} {state middle after : ParseState} {logged more : List Diagnostic}

theorem trans (h : Logs tokens state logged middle) (hmore : Logs tokens middle more after) :
    Logs tokens state (logged ++ more) after := by
  induction hmore with
  | refl => rwa [List.append_nil]
  | shift _ ih => exact ih.shift
  | report _ syntactic known ih =>
    rw [← List.append_assoc]
    exact ih.report syntactic known

theorem tokens_subset (h : Logs tokens state logged after) (hknown : state.tokens ⊆ tokens) :
    after.tokens ⊆ tokens := by
  induction h with
  | refl => exact hknown
  | @shift _ after _ ih => exact List.Subset.trans after.tokens_shift_subset ih
  | report _ _ _ ih => exact ih

theorem syntactic (h : Logs tokens state logged after) :
    ∀ diagnostic ∈ logged, diagnostic.problem.isLexical = false ∧
      ∃ token ∈ tokens, diagnostic.span = token.span := by
  induction h with
  | refl => exact fun _ hmem ↦ absurd hmem List.not_mem_nil
  | shift _ ih => exact ih
  | report _ syntactic known ih =>
    intro diagnostic hmem
    rcases List.mem_append.1 hmem with hmem | hmem
    · exact ih diagnostic hmem
    · rw [List.mem_singleton.1 hmem]
      exact ⟨syntactic, _, known, rfl⟩

theorem skipWithin (h : Logs tokens state logged after) (skip : TokenKind → Bool)
    (lexemes : List Lexeme) : Logs tokens state logged (after.skipWithin skip lexemes) := by
  induction lexemes generalizing after with
  | nil => exact h
  | cons lexeme lexemes ih =>
    rw [ParseState.skipWithin]
    split
    · exact ih h.shift
    · exact h

theorem upcoming_suffix (h : Logs tokens state logged after) :
    after.upcoming <:+ state.upcoming := by
  induction h with
  | refl => exact List.suffix_refl _
  | @shift _ after _ ih =>
    cases hupcoming : after.upcoming with
    | nil => rwa [shift_of_upcoming_nil hupcoming]
    | cons lexeme upcoming =>
      rw [hupcoming] at ih
      rw [shift_of_upcoming_cons hupcoming]
      exact (List.suffix_cons lexeme upcoming).trans ih
  | report _ _ _ ih => exact ih

/-- The lexical reports are those that come with the tokens. -/
theorem filter_lexical (h : Logs tokens state logged after) :
    after.reports.filter (·.problem.isLexical) = state.reports.filter (·.problem.isLexical) := by
  induction h with
  | refl => rfl
  | shift _ ih => rwa [reports_shift]
  | @report _ after _ problem syntactic token _ ih =>
    have hown : [Diagnostic.mk problem token.span .error].filter (·.problem.isLexical) = [] :=
      List.filter_cons_of_neg (by simp [syntactic])
    rw [← ih, reports, reports, List.filter_append, List.filter_append]
    change (after.diagnostics ++ [_]).filter _ ++ _ = _
    rw [List.filter_append, hown, List.append_nil]
    rfl

/-- Where only lexical reports come with the tokens, all others are the parser's own. -/
theorem filter_syntactic (h : Logs tokens state logged after)
    (hlexical : ∀ report ∈ state.reports, report.problem.isLexical = true) :
    after.diagnostics.filter (!·.problem.isLexical) = logged := by
  have hnone {reports : List Diagnostic} (hsubset : reports ⊆ state.reports) :
      reports.filter (!·.problem.isLexical) = [] := by
    rw [List.filter_eq_nil_iff]
    intro report hmem
    simp [hlexical report (hsubset hmem)]
  induction h with
  | refl => exact hnone (List.subset_append_left _ _)
  | @shift _ after before ih =>
    cases hupcoming : after.upcoming with
    | nil => rwa [shift_of_upcoming_nil hupcoming]
    | cons lexeme upcoming =>
      have hmem : lexeme ∈ state.upcoming :=
        before.upcoming_suffix.subset (hupcoming ▸ List.mem_cons_self ..)
      have hsubset : lexeme.reports ⊆ state.reports := fun report hreport ↦
        List.mem_append_right _ (List.mem_flatMap.2 ⟨lexeme, hmem, hreport⟩)
      rw [diagnostics_shift hupcoming, List.filter_append, ih, hnone hsubset, List.append_nil]
  | @report _ after _ problem syntactic token _ ih =>
    change (after.diagnostics ++ [_]).filter _ = _
    rw [List.filter_append, ih, List.filter_cons_of_pos (by simp [syntactic]), List.filter_nil]

end Logs

end ParseState

namespace Parser

variable {Result Next : Type} {tokens : List Token}

/-- Among the given tokens, a parser only reports problems of tokens that are not lexical. -/
def Logs (tokens : List Token) (parser : Parser Result) : Prop :=
  ∀ state : ParseState, state.tokens ⊆ tokens → ∃ logged, state.Logs tokens logged (parser state).2

namespace Logs

theorem pure (result : Result) : Logs tokens (Pure.pure result) :=
  fun _ _ ↦ ⟨[], .refl⟩

theorem bind {first : Parser Result} {next : Result → Parser Next} (hfirst : Logs tokens first)
    (hnext : ∀ result, Logs tokens (next result)) : Logs tokens (first >>= next) := by
  intro state hknown
  obtain ⟨logged, hlogged⟩ := hfirst state hknown
  obtain ⟨more, hmore⟩ := hnext (first state).1 (first state).2 (hlogged.tokens_subset hknown)
  exact ⟨logged ++ more, hlogged.trans hmore⟩

/-- What follows a look at the token in view may report a problem of that token. -/
theorem current {next : Token → Parser Next}
    (hnext : ∀ token ∈ tokens, Logs tokens (next token)) :
    Logs tokens (Parser.current >>= next) :=
  fun state hknown ↦ hnext state.current (hknown (List.mem_cons_self ..)) state hknown

theorem shift : Logs tokens (modify ParseState.shift) :=
  fun _ _ ↦ ⟨[], .shift .refl⟩

theorem skipWhile (skip : TokenKind → Bool) :
    Logs tokens (modify (ParseState.skipWhile skip)) :=
  fun state _ ↦ ⟨[], ParseState.Logs.refl.skipWithin skip state.upcoming⟩

theorem advance {next : Token → Parser Next}
    (hnext : ∀ token ∈ tokens, Logs tokens (next token)) :
    Logs tokens (Parser.advance >>= next) := by
  intro state hknown
  have hcurrent : state.current ∈ tokens := hknown (List.mem_cons_self ..)
  exact shift.bind (fun _ ↦ hnext state.current hcurrent) state hknown

theorem sees (kind : TokenKind) : Logs tokens (Parser.sees kind) :=
  fun _ _ ↦ ⟨[], .refl⟩

theorem report {problem : Problem} (hproblem : problem.isLexical = false) {token : Token}
    (hknown : token ∈ tokens) : Logs tokens (Parser.report problem token.span) :=
  fun _ _ ↦ ⟨_, .report .refl hproblem hknown⟩

theorem require (kind : TokenKind) {problem : Problem} (hproblem : problem.isLexical = false) :
    Logs tokens (Parser.require kind problem) := by
  apply Logs.current
  intro token hknown
  split
  · exact .shift
  · exact .report hproblem hknown

theorem expect (kind : TokenKind) {problem : Problem} (hproblem : problem.isLexical = false) :
    Logs tokens (Parser.expect kind problem) := by
  apply Logs.advance
  intro token hknown
  split
  · exact .pure ()
  · exact .report hproblem hknown

theorem optional (kind : TokenKind) : Logs tokens (Parser.optional kind) := by
  apply (sees kind).bind
  intro seen
  split
  · exact .shift
  · exact .pure ()

theorem iterate {step : Result → Parser (ForInStep Result)}
    (hstep : ∀ result, Logs tokens (step result)) (limit : Nat) (result : Result) :
    Logs tokens (Parser.iterate step limit result) := by
  induction limit generalizing result with
  | zero => exact .pure result
  | succ limit ih =>
    apply (hstep result).bind
    intro outcome
    cases outcome with
    | done final => exact .pure final
    | yield next => exact ih next

end Logs

/-! ## Expressions -/

section Inner

variable {inner : Inner} (hinner : ∀ minimum, Logs tokens (inner minimum))
include hinner

theorem opening?_logs {kind : TokenKind} {rest : Parser Expr}
    (h : opening? inner kind = some rest) : Logs tokens rest := by
  have hsigned (op : UnaryOp) : Logs tokens (signed inner op) :=
    (hinner .sign).bind fun _ ↦ .pure _
  have hgroup : Logs tokens (group inner) :=
    (hinner .lowest).bind fun _ ↦ (Logs.require _ rfl).bind fun _ ↦ .pure _
  unfold opening? at h
  split at h <;> cases h
  · exact .pure _
  · exact .pure _
  · exact .pure _
  · exact hsigned .plus
  · exact hsigned .minus
  · exact hgroup

theorem arguments_logs (limit : Nat) : Logs tokens (arguments inner limit) := by
  apply Logs.iterate
  intro parsed
  apply Logs.current
  intro token _
  split
  · exact .pure _
  · refine (hinner .lowest).bind fun argument ↦ (Logs.sees _).bind fun seen ↦ ?_
    split
    · exact Logs.shift.bind fun _ ↦ .pure _
    · exact .pure _

/-- Only an assignment reports a problem of the token that continues an expression. -/
theorem continuation?_logs {limit : Nat} {kind : TokenKind} {continuation : Continuation}
    (h : continuation? inner limit kind = some continuation) (left : Expr) {token : Token}
    (hknown : token ∈ tokens) : Logs tokens (continuation.parse left token.span) := by
  unfold continuation? at h
  split at h
  · cases h
    exact (arguments_logs hinner limit).bind fun _ ↦ (Logs.require _ rfl).bind fun _ ↦ .pure _
  · cases h
    exact (Logs.require _ rfl).bind fun _ ↦ (hinner .lowest).bind fun _ ↦
      (Logs.require _ rfl).bind fun _ ↦ (Logs.require _ rfl).bind fun _ ↦
      (Logs.require _ rfl).bind fun _ ↦ (hinner .lowest).bind fun _ ↦ .pure _
  · cases h
    have hvalue : Logs tokens (do return Expr.assign left (← inner .lowest)) :=
      (hinner .lowest).bind fun _ ↦ .pure _
    change Logs tokens (assignment inner left token.span)
    unfold assignment
    split
    · exact hvalue
    · exact (Logs.report rfl hknown).bind fun _ ↦ hvalue
  · obtain ⟨op, -, rfl⟩ := Option.map_eq_some_iff.1 h
    exact (hinner op.precedence.tighter).bind fun _ ↦ .pure _
  · cases h

theorem continuations_logs (limit : Nat) (minimum : Precedence) (operand : Expr) :
    Logs tokens (continuations inner limit minimum operand) := by
  apply Logs.iterate
  intro left
  apply Logs.current
  intro token hknown
  split
  · rename_i continuation hcontinuation
    split
    · exact Logs.shift.bind fun _ ↦
        (continuation?_logs hinner hcontinuation left hknown).bind fun _ ↦ .pure _
    · exact .pure _
  · exact .pure _

end Inner

theorem expressionWithin_logs (limit : Nat) (minimum : Precedence) :
    Logs tokens (expressionWithin limit minimum) := by
  induction limit generalizing minimum with
  | zero => exact .pure _
  | succ limit ih =>
    apply Logs.current
    intro token hknown
    split
    · rename_i rest hrest
      exact Logs.shift.bind fun _ ↦ (opening?_logs ih hrest).bind fun operand ↦
        continuations_logs ih limit minimum operand
    · exact (Logs.report rfl hknown).bind fun _ ↦ (Logs.skipWhile _).bind fun _ ↦ .pure _

/-! ## Statements -/

theorem terminated_logs (limit : Nat) (statement : Terminated) :
    Logs tokens (terminated limit statement) := by
  apply (expressionWithin_logs limit .lowest).bind
  intro value
  have hend : Logs tokens (terminate value statement) := by
    unfold terminate
    split
    · exact .optional _
    · exact .require _ rfl
  exact hend.bind fun _ ↦ .pure _

theorem declaration_logs (limit : Nat) : Logs tokens (declaration limit) := by
  apply Logs.shift.bind
  intro _
  apply Logs.advance
  intro token hknown
  split
  · apply (Logs.sees _).bind
    intro seen
    split
    · exact Logs.shift.bind fun _ ↦ .pure _
    · exact (Logs.require _ rfl).bind fun _ ↦ (terminated_logs limit _).bind fun _ ↦ .pure _
  · exact (Logs.report rfl hknown).bind fun _ ↦ (Logs.skipWhile _).bind fun _ ↦ .pure _

theorem statements_logs {element : Parser Stmt} (helement : Logs tokens element)
    (ends : TokenKind → Bool) (limit : Nat) : Logs tokens (statements element ends limit) := by
  apply Logs.iterate
  intro parsed
  apply Logs.current
  intro token _
  split
  · exact .pure _
  · exact helement.bind fun _ ↦ .pure _

theorem label_logs (limit : Nat) (front : Labels) : Logs tokens (label limit front) := by
  have hcolon : Logs tokens (do
      require (.mark .colon) .defaultWithoutColon
      return Labels.mk front.cases true true) :=
    (Logs.require _ rfl).bind fun _ ↦ .pure _
  apply Logs.advance
  intro token hknown
  split
  · split
    · exact (Logs.report rfl hknown).bind fun _ ↦ hcolon
    · exact hcolon
  · exact (expressionWithin_logs limit .lowest).bind fun _ ↦
      (Logs.require _ rfl).bind fun _ ↦ .pure _

theorem labels_logs (limit : Nat) (defaultSeen : Bool) :
    Logs tokens (labels limit defaultSeen) := by
  apply Logs.iterate
  intro front
  apply Logs.current
  intro token _
  split
  · exact (label_logs limit front).bind fun _ ↦ .pure _
  · exact .pure _

theorem binding_logs : Logs tokens binding := by
  apply Logs.advance
  intro token hknown
  split
  · exact .pure _
  · exact (Logs.report rfl hknown).bind fun _ ↦ .pure _

section Inside

variable {statement : Bool → Parser Stmt}
  (hstatement : ∀ mayDeclare, Logs tokens (statement mayDeclare))
include hstatement

theorem branch_logs : Logs tokens (branch statement) := by
  apply (Logs.skipWhile _).bind
  intro _
  apply Logs.current
  intro token hknown
  split
  · exact (Logs.report rfl hknown).bind fun _ ↦ hstatement false
  · exact hstatement false

theorem guarded_logs (limit : Nat) : Logs tokens (guarded statement limit) :=
  (Logs.require _ rfl).bind fun _ ↦ (expressionWithin_logs limit .lowest).bind fun _ ↦
    (Logs.require _ rfl).bind fun _ ↦ (branch_logs hstatement).bind fun _ ↦ .pure _

theorem alternative_logs (limit links : Nat) :
    Logs tokens (alternative statement limit links) := by
  induction links with
  | zero => exact .pure _
  | succ links ih =>
    apply Logs.current
    intro token _
    split
    · exact Logs.shift.bind fun _ ↦ (guarded_logs hstatement limit).bind fun _ ↦
        ih.bind fun _ ↦ .pure _
    · exact Logs.shift.bind fun _ ↦ (branch_logs hstatement).bind fun _ ↦ .pure _
    · exact .pure _

theorem body_logs (limit : Nat) : Logs tokens (body statement limit) :=
  (Logs.expect _ rfl).bind fun _ ↦ (statements_logs (hstatement true) endsBody limit).bind fun _ ↦
    (Logs.require _ rfl).bind fun _ ↦ .pure _

theorem armStatement_logs : Logs tokens (armStatement statement) := by
  apply Logs.current
  intro start hknown
  apply (hstatement true).bind
  intro parsed
  split
  · exact (Logs.report rfl hknown).bind fun _ ↦ .pure _
  · exact .pure _

theorem arms_logs (limit : Nat) : Logs tokens (arms statement limit) := by
  refine Logs.bind (.iterate (fun parsed ↦ .current fun token _ ↦ ?_) limit _) fun _ ↦ .pure _
  split
  · exact (labels_logs limit _).bind fun _ ↦
      (statements_logs (armStatement_logs hstatement) endsArm limit).bind fun _ ↦ .pure _
  · exact .pure _

theorem switch_logs (limit : Nat) : Logs tokens (switch statement limit) :=
  (expressionWithin_logs limit .lowest).bind fun _ ↦ (Logs.require _ rfl).bind fun _ ↦
    (arms_logs hstatement limit).bind fun _ ↦ (Logs.require _ rfl).bind fun _ ↦ .pure _

theorem attempt_logs (limit : Nat) : Logs tokens (attempt statement limit) :=
  (body_logs hstatement limit).bind fun _ ↦ (Logs.expect _ rfl).bind fun _ ↦
    (Logs.require _ rfl).bind fun _ ↦ binding_logs.bind fun _ ↦
    (Logs.require _ rfl).bind fun _ ↦ (body_logs hstatement limit).bind fun _ ↦ .pure _

theorem statementAt_logs (limit : Nat) (mayDeclare : Bool) {token : Token}
    (hknown : token ∈ tokens) : Logs tokens (statementAt statement limit mayDeclare token) := by
  unfold statementAt
  split
  · exact .pure _
  · split
    · exact declaration_logs limit
    · exact (Logs.report rfl hknown).bind fun _ ↦ declaration_logs limit
  · exact Logs.shift.bind fun _ ↦ (guarded_logs hstatement limit).bind fun _ ↦
      (alternative_logs hstatement limit limit).bind fun _ ↦ .pure _
  · exact Logs.shift.bind fun _ ↦ (guarded_logs hstatement limit).bind fun _ ↦ .pure _
  · exact Logs.shift.bind fun _ ↦ (terminated_logs limit _).bind fun _ ↦ .pure _
  · exact Logs.shift.bind fun _ ↦ switch_logs hstatement limit
  · exact Logs.shift.bind fun _ ↦ attempt_logs hstatement limit
  · exact Logs.shift.bind fun _ ↦ (terminated_logs limit _).bind fun _ ↦ .pure _
  · exact Logs.shift.bind fun _ ↦ (Logs.require _ rfl).bind fun _ ↦ .pure _
  · exact (body_logs hstatement limit).bind fun _ ↦ .pure _
  · exact (terminated_logs limit _).bind fun _ ↦ .pure _

end Inside

theorem statementWithin_logs (limit : Nat) (mayDeclare : Bool) :
    Logs tokens (statementWithin limit mayDeclare) := by
  induction limit generalizing mayDeclare with
  | zero => exact .pure _
  | succ limit ih =>
    exact (Logs.skipWhile _).bind fun _ ↦ .current fun token hknown ↦
      statementAt_logs ih _ mayDeclare hknown

/-! ## Whole texts -/

theorem program_logs {state : ParseState} (hknown : state.tokens ⊆ tokens) :
    ∃ logged after, state.Logs tokens logged after ∧
      program state =
        (⟨(program state).1.body, after.diagnostics, after.report?⟩, after.handedOver) := by
  have helement : Logs tokens (statementWithin (state.remaining + 1) true) :=
    statementWithin_logs _ true
  obtain ⟨logged, hlogged⟩ := statements_logs helement (· = .eof) (state.remaining + 1) state hknown
  exact ⟨logged, _, hlogged, program_apply state⟩

theorem upcoming_program {state : ParseState} (hended : state.Ended) :
    (program state).2.upcoming = [] := by
  obtain ⟨-, taken, after, htakes, heof, -, -, hfinal, -⟩ := program_takes hended
  rw [hfinal]
  exact List.eq_nil_of_length_eq_zero ((htakes.ended hended).current_eq_eof_iff.1 heof)

end Parser

open ParseState Parser

section Record

variable (colors : Option Painter) (source : String)

/-- The record of a parse: what the parser reported itself, and what came with the tokens. -/
theorem exists_parse_logs :
    ∃ logged after, (ofSource colors source).Logs (Cursor.tokensOf source) logged after ∧
      (parse colors source).diagnostics = after.diagnostics ∧ after.upcoming = [] := by
  have hknown : (ofSource colors source).tokens ⊆ Cursor.tokensOf source := by
    rw [tokens_ofSource]
    exact List.Subset.refl _
  obtain ⟨logged, after, hlogged, hprogram⟩ := program_logs hknown
  have hupcoming := upcoming_program (ofSource_ended colors source)
  rw [hprogram] at hupcoming
  exact ⟨logged, after, hlogged, congrArg (·.1.diagnostics) hprogram, hupcoming⟩

theorem lexical_diagnostics_parse :
    (parse colors source).diagnostics.filter (·.problem.isLexical) =
      Cursor.rawReportsOf source := by
  obtain ⟨logged, after, hlogged, hparse, hupcoming⟩ := exists_parse_logs colors source
  have hreports : after.reports = after.diagnostics := by
    rw [reports, hupcoming, List.flatMap_nil, List.append_nil]
  calc (parse colors source).diagnostics.filter (·.problem.isLexical)
      = after.reports.filter (·.problem.isLexical) := by rw [hparse, hreports]
    _ = (Cursor.rawReportsOf source).filter (·.problem.isLexical) := by
        rw [hlogged.filter_lexical, reports_ofSource, Cursor.rawReportsOf_eq_reportsOf]
    _ = Cursor.rawReportsOf source :=
        List.filter_eq_self.2 fun _ ↦ Cursor.isLexical_of_mem_rawReportsOf

theorem syntactic_diagnostics_parse :
    ∃ logged after, (ofSource colors source).Logs (Cursor.tokensOf source) logged after ∧
      (parse colors source).diagnostics = after.diagnostics ∧
      (parse colors source).diagnostics.filter (!·.problem.isLexical) = logged := by
  obtain ⟨logged, after, hlogged, hparse, -⟩ := exists_parse_logs colors source
  refine ⟨logged, after, hlogged, hparse, ?_⟩
  rw [hparse]
  apply hlogged.filter_syntactic
  rw [reports_ofSource, ← Cursor.rawReportsOf_eq_reportsOf]
  exact fun _ ↦ Cursor.isLexical_of_mem_rawReportsOf

/-- The record of a parse without what the parser reported itself is all that reading the text
reports, each report once and in the same order; reading on at the end reports nothing more. A text
with such a report is not run, so nothing is printed. -/
theorem lexical_reports_kept :
    (∃ logged after, (ofSource colors source).Logs (Cursor.tokensOf source) logged after ∧
      (parse colors source).diagnostics = after.diagnostics ∧
      (parse colors source).diagnostics.filter (!·.problem.isLexical) = logged) ∧
    (parse colors source).diagnostics.filter (·.problem.isLexical) =
      Cursor.rawReportsOf source ∧
    (∀ cursor : Cursor, cursor.readRaw.token.kind = .eof →
      cursor.readRaw.next.readRaw = ⟨cursor.readRaw.token, [], cursor.readRaw.next⟩) ∧
    (Cursor.rawReportsOf source ≠ [] → ∃ report,
      (parse colors source).report = some report ∧
      report = renderAll colors (linesOf source) (parse colors source).diagnostics ∧
      check colors source = .error report ∧
      ∀ rounds sink,
        run rounds colors sink source = (.error (.unparsed report), .ofSink sink)) := by
  have hlexical := lexical_diagnostics_parse colors source
  refine ⟨syntactic_diagnostics_parse colors source, hlexical,
    fun _ ↦ Cursor.readRaw_again_of_eof, ?_⟩
  intro hreports
  have hdiagnostics : (parse colors source).diagnostics ≠ [] := by
    intro hnone
    rw [hnone] at hlexical
    exact hreports hlexical.symm
  have hreport := report_parse_of_diagnostics hdiagnostics
  exact ⟨_, hreport, rfl, check_of_report hreport, run_of_report hreport⟩

end Record

/-- Nothing of the first statement is printed, for the string of the second one has no end. -/
theorem unclosedString_unrun :
    Cursor.rawReportsOf "alpha 1; alpha 'a" ≠ [] ∧ ∃ report,
      check none "alpha 1; alpha 'a" = .error report ∧
      ∀ rounds sink,
        run rounds none sink "alpha 1; alpha 'a" = (.error (.unparsed report), .ofSink sink) := by
  have hreports : Cursor.rawReportsOf "alpha 1; alpha 'a" ≠ [] := by
    rw [Cursor.rawReportsOf_eq_reportsOf]
    decide +kernel
  obtain ⟨-, -, -, hrun⟩ := lexical_reports_kept none "alpha 1; alpha 'a"
  obtain ⟨report, -, -, hcheck⟩ := hrun hreports
  exact ⟨hreports, report, hcheck⟩

end Slang
