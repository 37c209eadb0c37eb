import Slang.Proofs.ParseShape
import Slang.Proofs.Recognition
import Slang.Proofs.Seam

/-!
# Parsing one text behind another

A text that is read without reports leaves no trace: with a line break and a second text behind it,
the second one is read as it is alone, with its reports moved. Only a conditional statement at the
end of the first text looks at what follows, and goes on if that is a further branch.
-/

namespace Slang

open Parser ParseState

/-! ## Where the second text stands -/

namespace Location

/-- A text that follows a line break begins in the first column. -/
theorem start_after (text : List Char) :
    start.after (text ++ ['\n']) = start.moved (text.count '\n' + 1) (byteLength text + 1) := by
  have hline := line_after start text
  have hoffset := offset_after start text
  rw [after_append, after_cons, after_nil, step, if_pos rfl, hline, hoffset]
  rfl

end Location

/-- Moves a span behind a text and a line break. -/
def Span.behind (source : String) : Span → Span :=
  Span.moved (source.toList.count '\n' + 1) (source.utf8ByteSize + 1)

namespace Cursor

theorem lexemeList_ofSource_append {first : String} (hclean : reportsOf first = [])
    (second : String) :
    (ofSource (first ++ "\n" ++ second)).lexemeList = (ofSource first).lexemeList.dropLast ++
      (ofSource second).lexemeList.map (Lexeme.relocate (Span.behind first)) := by
  have hextended : ofSource (first ++ "\n" ++ second) =
      (ofSource first).extended second.toList := by
    simp [ofSource, extended]
  have hbeyond : (ofSource first).beyond second.toList = (ofSource second).moved
      (first.toList.count '\n' + 1) (first.utf8ByteSize + 1) := by
    rw [beyond, ofSource, Location.start_after, byteLength_eq, String.ofList_toList]
    rfl
  rw [hextended, lexemeList_extended hclean, hbeyond, lexemeList_moved]
  rfl

end Cursor

namespace ParseState

/-- The lexemes in view. What was recorded so far counts as reported with the first of them. -/
def lexemes (state : ParseState) : List Lexeme :=
  ⟨state.current, state.diagnostics⟩ :: state.upcoming

theorem lexemes_ofSource (colors : Option Painter) (source : String) :
    (ofSource colors source).lexemes = (Cursor.ofSource source).lexemeList := by
  rw [lexemes, current_ofSource, diagnostics_ofSource, upcoming_ofSource]
  rfl

theorem lexemes_shift {state : ParseState} (hclean : state.diagnostics = [])
    (hmore : state.upcoming ≠ []) : state.shift.lexemes = state.upcoming := by
  cases hupcoming : state.upcoming with
  | nil => exact absurd hupcoming hmore
  | cons lexeme upcoming =>
    rw [lexemes, diagnostics_shift hupcoming, hclean, shift_of_upcoming_cons hupcoming]
    rfl

theorem moved_of_lexemes {move : Span → Span} {state moved : ParseState}
    (h : moved.lexemes = state.lexemes.map (Lexeme.relocate move)) : state.Moved move moved := by
  obtain ⟨hfirst, hupcoming⟩ := List.cons.inj h
  obtain ⟨hcurrent, hdiagnostics⟩ := Lexeme.mk.inj hfirst
  exact ⟨hcurrent, hupcoming, hdiagnostics⟩

/-- Lexemes in front of others are passed over, if nothing was reported with them. -/
theorem exists_passes_of_lexemes {state : ParseState} {front rest : List Lexeme}
    (h : state.lexemes = front ++ rest) (hclean : front.flatMap Lexeme.reports = [])
    (hrest : rest ≠ []) :
    ∃ after : ParseState, state.Passes (front.map (Token.kind ∘ Lexeme.token)) after ∧
      after.lexemes = rest := by
  induction front generalizing state with
  | nil => exact ⟨state, .nil state, h⟩
  | cons lexeme front ih =>
    obtain ⟨rfl, hupcoming⟩ := List.cons.inj h
    rw [List.flatMap_cons, List.append_eq_nil_iff] at hclean
    have hmore : state.upcoming ≠ [] := hupcoming ▸ List.append_ne_nil_of_right_ne_nil _ hrest
    obtain ⟨after, hpasses, hafter⟩ := ih ((lexemes_shift hclean.1 hmore).trans hupcoming) hclean.2
    exact ⟨after, .cons rfl hpasses, hafter⟩

theorem exists_passes_ofSource_append {first : String} {kinds : List TokenKind}
    (hclean : Cursor.reportsOf first = [])
    (hkinds : (Cursor.tokensOf first).map Token.kind = kinds ++ [.eof]) (second : String)
    (colors other : Option Painter) :
    ∃ after, (ofSource colors (first ++ "\n" ++ second)).Passes kinds after ∧
      (ofSource other second).Moved (Span.behind first) after := by
  have hfront : (Cursor.ofSource first).lexemeList.dropLast.flatMap Lexeme.reports = [] := by
    rw [Cursor.reportsOf, List.flatMap_eq_nil_iff] at hclean
    exact List.flatMap_eq_nil_iff.2 fun lexeme hmem ↦ hclean lexeme (List.dropLast_subset _ hmem)
  have hdropped : (Cursor.ofSource first).lexemeList.dropLast.map (Token.kind ∘ Lexeme.token) =
      kinds := by
    rw [Cursor.tokensOf, List.map_map] at hkinds
    rw [List.map_dropLast]
    exact (congrArg List.dropLast hkinds).trans List.dropLast_concat
  have hlexemes := (lexemes_ofSource colors _).trans
    (Cursor.lexemeList_ofSource_append hclean second)
  rw [← lexemes_ofSource other second] at hlexemes
  obtain ⟨after, hpasses, hafter⟩ :=
    exists_passes_of_lexemes hlexemes hfront (List.cons_ne_nil _ _)
  rw [hdropped] at hpasses
  exact ⟨after, hpasses, moved_of_lexemes hafter⟩

theorem Ended.moved {move : Span → Span} {state moved : ParseState} (h : state.Ended)
    (hmoved : state.Moved move moved) : moved.Ended := by
  have hkinds : moved.kinds = state.kinds := by
    rw [kinds_eq_cons, kinds_eq_cons, hmoved.current_eq, hmoved.upcoming_eq, List.map_map]
    rfl
  rwa [Ended, hkinds]

end ParseState

theorem Parser.isAlternative_eq_false {kind : TokenKind} (helseWhen : kind ≠ .keyword .elseWhen)
    (hotherwise : kind ≠ .keyword .otherwise) : isAlternative kind = false := by
  unfold isAlternative
  split
  · exact absurd rfl helseWhen
  · exact absurd rfl hotherwise
  · rfl

/-! ## What follows a statement -/

/-- Whether a phrase ends with the end of a statement. -/
def Phrase.closesStatement : Phrase → Bool
  | .statement .. | .guarded .. | .alternative .. | .body .. => true
  | _ => false

theorem headD_append (kinds more : List TokenKind) (next : TokenKind) :
    (kinds ++ more).headD next = kinds.headD (more.headD next) := by
  cases kinds <;> rfl

theorem Spells.of_headD {phrase : Phrase} {kinds more : List TokenKind} {next other : TokenKind}
    (h : Spells phrase kinds (more.headD next)) (hother : Spells phrase kinds other) :
    Spells phrase kinds (more.headD other) := by
  cases more with
  | nil => exact hother
  | cons => exact h

/-- Statements do not depend on the token behind them, unless it is a further branch. -/
theorem Spells.change_next {phrase : Phrase} {kinds : List TokenKind} {next other : TokenKind}
    (h : Spells phrase kinds next) (hphrase : phrase.closesStatement = true)
    (hother : isAlternative other = false) : Spells phrase kinds other := by
  induction h with
  | semicolon behind ih => exact .semicolon (ih rfl)
  | evaluation mayDeclare next inside => exact .evaluation mayDeclare other inside
  | declaration name next => exact .declaration name other
  | definition name next inside => exact .definition name other inside
  | print mayDeclare next inside => exact .print mayDeclare other inside
  | throw mayDeclare next inside => exact .throw mayDeclare other inside
  | leave mayDeclare next => exact .leave mayDeclare other
  | block mayDeclare inside ih => exact .block mayDeclare (ih rfl)
  | when mayDeclare first others ihfirst ihothers =>
    exact .when mayDeclare (first.of_headD (ihfirst rfl)) (ihothers rfl)
  | loop mayDeclare inside ih => exact .loop mayDeclare (ih rfl)
  | switch mayDeclare next front inside => exact .switch mayDeclare other front inside
  | attempt mayDeclare binding inside rescue ihinside ihrescue =>
    exact .attempt mayDeclare binding inside (ihrescue rfl)
  | guarded test branch ihtest ihbranch => exact .guarded test (ihbranch rfl)
  | none stop => exact .none hother
  | otherwise branch ih => exact .otherwise (ih rfl)
  | elseWhen first others ihfirst ihothers =>
    exact .elseWhen (first.of_headD (ihfirst rfl)) (ihothers rfl)
  | body next inside => exact .body other inside
  | _ => cases hphrase

/-- Reading the statements of a text goes on behind it with the statements of what follows. -/
theorem Unbounded.statements_of_spells {before after : List Stmt} {kinds : List TokenKind}
    {state rest : ParseState} (h : Spells (.statements .program before after) kinds .eof)
    (hpasses : state.Passes kinds rest) (hrest : isAlternative rest.current.kind = false) :
    statements .program before state = statements .program after rest := by
  generalize hlength : kinds.length = length
  induction length using Nat.strongRecOn generalizing before kinds state with
  | _ length ih =>
    cases h with
    | statementsEnd _ stop =>
      cases hpasses
      rfl
    | semicolons _ _ count =>
      -- Semicolons at the end of the first text belong to the first statement of the second.
      have hstatement := statement_of_semicolons hpasses true
      have hmore : Place.program.ends state.current.kind = false := by
        rw [hpasses.of_cons.1]
        rfl
      rw [statements_of_more hmore]
      cases hends : Place.program.ends rest.current.kind with
      | true =>
        have heof := statement_of_eof (of_decide_eq_true hends) true
        exact bind_of_eq (hstatement.trans heof) _
      | false =>
        rw [statements_of_more hends]
        exact congrArg (Option.bind · _) hstatement
    | statements first direct others =>
      rename_i parsed front more
      obtain ⟨middle, hfront, hback, hmiddle⟩ := hpasses.of_append
      have hspells := first.of_headD (first.change_next rfl hrest)
      have hstatement := (hspells.reads hfront hmiddle).1
      have hshorter : more.length < length := by
        obtain ⟨kind, behind, rfl, -⟩ := first.statement_first
        simp only [List.length_append, List.length_cons] at hlength
        omega
      rw [statements_of_more (first.not_ends hfront .program),
        bind_of_eq (element_of_statement hstatement direct), first.statement_not_broken]
      exact ih _ hshorter others hback rfl

/-! ## The second text behind the first -/

namespace Parser

/-- What was read before a statement list stays in front of it. -/
theorem statementsRound_append (element : Parser Stmt) (ends : TokenKind → Bool) (limit : Nat)
    (front parsed : List Stmt) (state : ParseState) :
    iterate (statementsRound element ends) limit (front ++ parsed) state =
      (front ++ (iterate (statementsRound element ends) limit parsed state).1,
        (iterate (statementsRound element ends) limit parsed state).2) := by
  induction limit generalizing parsed state with
  | zero => rfl
  | succ limit ih =>
    cases hends : ends state.current.kind with
    | true => rw [statementsRound_of_ends hends, statementsRound_of_ends hends]
    | false =>
      rw [statementsRound_of_more hends, statementsRound_of_more hends, ← ih]
      split
      · rfl
      · rw [List.append_assoc]

theorem statementsRound_moved {move : Span → Span} {element : Parser Stmt}
    (helement : Relocates move element element) (ends : TokenKind → Bool) (limit : Nat)
    (before : List Stmt) {state moved : ParseState} (h : state.Moved move moved) :
    ∃ after, (statements element ends limit state).2.Moved move after ∧
      iterate (statementsRound element ends) limit before moved =
        (before ++ (statements element ends limit state).1, after) := by
  obtain ⟨hbody, hafter⟩ := statements_relocates helement ends limit state moved h
  have hfront := statementsRound_append element ends limit before [] moved
  rw [List.append_nil, ← statements_eq, hbody] at hfront
  exact ⟨_, hafter, hfront⟩

end Parser

/-- A moved text is read behind any statements as it is alone. -/
theorem Unbounded.statements_moved {move : Span → Span} (before : List Stmt)
    {colors : Option Painter} {source : String} {moved : ParseState}
    (h : (ofSource colors source).Moved move moved) :
    ∃ after, statements .program before moved =
        some (before ++ (parse colors source).body, after) ∧
      after.diagnostics = (parse colors source).diagnostics.map (Diagnostic.relocate move) := by
  have hended := (ofSource_ended colors source).moved h
  have hlimit : moved.remaining < (ofSource colors source).remaining + 1 := by
    rw [h.remaining_eq]
    exact Nat.lt_succ_self _
  have helement := statement_elementRuns
    (statementWithin_runs ((ofSource colors source).remaining + 1))
    (by decide : Place.program ≠ .arm)
  obtain ⟨hrun, -⟩ := statementsRound_runs helement (Nat.le_refl _) before _ hended hlimit
  obtain ⟨after, hafter, hround⟩ :=
    statementsRound_moved (statementWithin_relocates _ true) Place.program.ends _ before h
  rw [hrun, hround]
  exact ⟨after, rfl, hafter.diagnostics_eq⟩

/-- A text behind one that is read without reports is read as it is alone, with its reports
moved, if it does not begin with a further branch. -/
theorem parse_append {colors : Option Painter} {first second : String}
    (hclean : (parse colors first).diagnostics = [])
    (hsecond : ∀ token ∈ (Cursor.tokensOf second).head?,
      token.kind ≠ .keyword .elseWhen ∧ token.kind ≠ .keyword .otherwise) :
    (parse colors (first ++ "\n" ++ second)).body =
        (parse colors first).body ++ (parse colors second).body ∧
      (parse colors (first ++ "\n" ++ second)).diagnostics =
        (parse colors second).diagnostics.map (Diagnostic.relocate (Span.behind first)) := by
  obtain ⟨hreports, kinds, hkinds, hspells⟩ := spells_of_parse hclean
  obtain ⟨start, hpasses, hstart⟩ :=
    exists_passes_ofSource_append hreports hkinds second colors colors
  obtain ⟨helseWhen, hotherwise⟩ := hsecond (ofSource colors second).current
    (by rw [← tokens_ofSource colors]; rfl)
  have hnext : isAlternative start.current.kind = false := by
    rw [hstart.current_eq, Token.kind_relocate]
    exact isAlternative_eq_false helseWhen hotherwise
  have hfirst := Unbounded.statements_of_spells hspells hpasses hnext
  obtain ⟨after, hafter, hdiagnostics⟩ :=
    Unbounded.statements_moved (parse colors first).body hstart
  rw [parse_of_unbounded (hfirst.trans hafter)]
  exact ⟨rfl, hdiagnostics⟩

/-- The first text ends in a comment, behind a conditional statement that could go on, and the
second one has three mistakes. -/
theorem openBranch_parse_append :
    let parsed :=
      parse none ("bet (x)\n  alpha 'é'; // cap" ++ "\n" ++ "@ dip alpha y;\n\x7d delulu")
    parsed.body =
        [.when (.identifier "x") (.print (.string "é")) .none, .leave, .print (.identifier "y")] ∧
      parsed.diagnostics =
        [⟨.unexpectedCharacter '@', ⟨⟨3, 1, 29⟩, 1⟩, .error⟩,
          ⟨.unterminated .leave, ⟨⟨3, 7, 35⟩, 5⟩, .error⟩,
          ⟨.unexpectedToken (.mark .closeBrace), ⟨⟨4, 1, 44⟩, 1⟩, .error⟩] := by
  have hclean : (parse none "bet (x)\n  alpha 'é'; // cap").diagnostics = [] := rfl
  have hsecond : ∀ token ∈ (Cursor.tokensOf "@ dip alpha y;\n\x7d delulu").head?,
      token.kind ≠ .keyword .elseWhen ∧ token.kind ≠ .keyword .otherwise := by decide +kernel
  obtain ⟨hbody, hdiagnostics⟩ := parse_append hclean hsecond
  exact ⟨hbody.trans rfl, hdiagnostics.trans rfl⟩

end Slang
