import Slang.Parse.Statement

/-!
# Parsing does not depend on locations or on what is written

Where a token stands matters to a parser only for what it reports, and what has been written of its
reports matters to it not at all. So take two states with the same tokens and diagnostics but for
their spans, which may have been moved, whatever their colours, their lines and their reports are.
From both, each parser gives the same result and takes the same tokens, and its reports are moved
the same way.
-/

namespace Slang

section Moves

variable (move : Span → Span)

def Diagnostic.relocate (diagnostic : Diagnostic) : Diagnostic :=
  ⟨diagnostic.problem, move diagnostic.span, diagnostic.severity⟩

def Token.relocate (token : Token) : Token :=
  ⟨token.kind, move token.span⟩

def Lexeme.relocate (lexeme : Lexeme) : Lexeme :=
  ⟨lexeme.token.relocate move, lexeme.reports.map (Diagnostic.relocate move)⟩

/-- The second state is the first one with every span moved. Nothing is said of what was written
about it, nor of the colours and the lines that this was written with. -/
structure ParseState.Moved (state moved : ParseState) : Prop where
  current_eq : moved.current = state.current.relocate move
  upcoming_eq : moved.upcoming = state.upcoming.map (Lexeme.relocate move)
  diagnostics_eq : moved.diagnostics = state.diagnostics.map (Diagnostic.relocate move)

end Moves

theorem Diagnostic.relocate_id : Diagnostic.relocate id = id := rfl

theorem Token.relocate_id : Token.relocate id = id := rfl

theorem Lexeme.relocate_id : Lexeme.relocate id = id := by
  funext lexeme
  rw [Lexeme.relocate, Token.relocate_id, Diagnostic.relocate_id, List.map_id]
  rfl

variable {move : Span → Span}

@[simp] theorem Token.kind_relocate (token : Token) : (token.relocate move).kind = token.kind := rfl

namespace ParseState

namespace Moved

variable {state moved : ParseState} (h : state.Moved move moved)
include h

theorem remaining_eq : moved.remaining = state.remaining := by
  rw [remaining, h.upcoming_eq, List.length_map]
  rfl

theorem record (diagnostic : Diagnostic) :
    (state.record diagnostic).Moved move (moved.record (diagnostic.relocate move)) := by
  refine ⟨h.current_eq, h.upcoming_eq, ?_⟩
  change moved.diagnostics ++ [_] = (state.diagnostics ++ [_]).map _
  rw [h.diagnostics_eq, List.map_append]
  rfl

theorem shift : state.shift.Moved move moved.shift := by
  have hupcoming := h.upcoming_eq
  unfold ParseState.shift
  cases hstate : state.upcoming with
  | nil =>
    rw [hstate] at hupcoming
    rw [hupcoming]
    exact h
  | cons lexeme upcoming =>
    rw [hstate] at hupcoming
    rw [hupcoming]
    refine ⟨rfl, rfl, ?_⟩
    change (moved.absorb _).diagnostics = (state.absorb _).diagnostics.map _
    rw [diagnostics_absorb, diagnostics_absorb, h.diagnostics_eq, List.map_append]
    rfl

theorem skipWhile (skip : TokenKind → Bool) :
    (state.skipWhile skip).Moved move (moved.skipWhile skip) := by
  have hwithin (lexemes : List Lexeme) : (state.skipWithin skip lexemes).Moved move
      (moved.skipWithin skip (lexemes.map (Lexeme.relocate move))) := by
    induction lexemes generalizing state moved with
    | nil => exact h
    | cons lexeme lexemes ih =>
      rw [List.map_cons, skipWithin, skipWithin, h.current_eq, Token.kind_relocate]
      split
      · exact ih h.shift
      · exact h
  unfold ParseState.skipWhile
  rw [h.upcoming_eq]
  exact hwithin state.upcoming

end Moved

end ParseState

namespace Parser

variable {Result Next : Type}

/-- From a moved state, the second parser does what the first one does from the state itself. -/
def Relocates (move : Span → Span) (parser moved : Parser Result) : Prop :=
  ∀ state other, ParseState.Moved move state other →
    (moved other).1 = (parser state).1 ∧ (parser state).2.Moved move (moved other).2

namespace Relocates

theorem pure (result : Result) : Relocates move (Pure.pure result) (Pure.pure result) :=
  fun _ _ h ↦ ⟨rfl, h⟩

theorem bind {first moved : Parser Result} {next next' : Result → Parser Next}
    (hfirst : Relocates move first moved) (hnext : ∀ result, Relocates move (next result)
      (next' result)) : Relocates move (first >>= next) (moved >>= next') := by
  intro state other h
  obtain ⟨hresult, hafter⟩ := hfirst state other h
  have hnext' : (moved >>= next') other = next' (first state).1 (moved other).2 := by
    rw [← hresult]
    rfl
  rw [hnext']
  exact hnext (first state).1 _ _ hafter

/-- What follows a look at the token in view gets to know where that token stands now. -/
theorem current {next next' : Token → Parser Next}
    (hnext : ∀ token, Relocates move (next token) (next' (token.relocate move))) :
    Relocates move (Parser.current >>= next) (Parser.current >>= next') := by
  intro state other h
  have hlast := hnext state.current state other h
  rwa [← h.current_eq] at hlast

theorem shift : Relocates move (modify ParseState.shift) (modify ParseState.shift) :=
  fun _ _ h ↦ ⟨rfl, h.shift⟩

theorem skipWhile (skip : TokenKind → Bool) :
    Relocates move (modify (ParseState.skipWhile skip)) (modify (ParseState.skipWhile skip)) :=
  fun _ _ h ↦ ⟨rfl, h.skipWhile skip⟩

theorem advance {next next' : Token → Parser Next}
    (hnext : ∀ token, Relocates move (next token) (next' (token.relocate move))) :
    Relocates move (Parser.advance >>= next) (Parser.advance >>= next') := by
  intro state other h
  have hlast := hnext state.current state.shift other.shift h.shift
  rwa [← h.current_eq] at hlast

theorem sees (kind : TokenKind) : Relocates move (Parser.sees kind) (Parser.sees kind) :=
  .current fun _ ↦ .pure _

theorem report (problem : Problem) (span : Span) :
    Relocates move (Parser.report problem span) (Parser.report problem (move span)) :=
  fun _ _ h ↦ ⟨rfl, h.record ⟨problem, span, .error⟩⟩

theorem require (kind : TokenKind) (problem : Problem) :
    Relocates move (Parser.require kind problem) (Parser.require kind problem) := by
  refine .current fun token ↦ ?_
  rw [Token.kind_relocate]
  split
  · exact .shift
  · exact .report problem token.span

theorem expect (kind : TokenKind) (problem : Problem) :
    Relocates move (Parser.expect kind problem) (Parser.expect kind problem) := by
  refine .advance fun token ↦ ?_
  rw [Token.kind_relocate]
  split
  · exact .pure ()
  · exact .report problem token.span

theorem optional (kind : TokenKind) :
    Relocates move (Parser.optional kind) (Parser.optional kind) := by
  refine (sees kind).bind fun seen ↦ ?_
  split
  · exact .shift
  · exact .pure ()

theorem iterate {step : Result → Parser (ForInStep Result)}
    (hstep : ∀ result, Relocates move (step result) (step result)) (limit : Nat)
    (result : Result) :
    Relocates move (Parser.iterate step limit result) (Parser.iterate step limit result) := by
  induction limit generalizing result with
  | zero => exact .pure result
  | succ limit ih =>
    refine (hstep result).bind fun outcome ↦ ?_
    cases outcome with
    | done final => exact .pure final
    | yield next => exact ih next

end Relocates

/-! ## Expressions -/

section Inner

variable {inner : Inner} (hinner : ∀ minimum, Relocates move (inner minimum) (inner minimum))
include hinner

theorem opening?_relocates {kind : TokenKind} {rest : Parser Expr}
    (h : opening? inner kind = some rest) : Relocates move rest rest := by
  have hsigned (op : UnaryOp) : Relocates move (signed inner op) (signed inner op) :=
    (hinner .sign).bind fun _ ↦ .pure _
  have hgroup : Relocates move (group inner) (group inner) :=
    (hinner .lowest).bind fun _ ↦ (Relocates.require _ _).bind fun _ ↦ .pure _
  unfold opening? at h
  split at h <;> cases h
  · exact .pure _
  · exact .pure _
  · exact .pure _
  · exact hsigned .plus
  · exact hsigned .minus
  · exact hgroup

theorem arguments_relocates (limit : Nat) :
    Relocates move (arguments inner limit) (arguments inner limit) := by
  refine .iterate (fun parsed ↦ .current fun token ↦ ?_) limit []
  rw [Token.kind_relocate]
  split
  · exact .pure _
  · refine (hinner .lowest).bind fun argument ↦ (Relocates.sees _).bind fun seen ↦ ?_
    split
    · exact Relocates.shift.bind fun _ ↦ .pure _
    · exact .pure _

theorem continuation?_relocates {limit : Nat} {kind : TokenKind} {continuation : Continuation}
    (h : continuation? inner limit kind = some continuation) (left : Expr) (span : Span) :
    Relocates move (continuation.parse left span) (continuation.parse left (move span)) := by
  unfold continuation? at h
  split at h
  · cases h
    exact (arguments_relocates hinner limit).bind fun _ ↦ (Relocates.require _ _).bind fun _ ↦
      .pure _
  · cases h
    exact (Relocates.require _ _).bind fun _ ↦ (hinner .lowest).bind fun _ ↦
      (Relocates.require _ _).bind fun _ ↦ (Relocates.require _ _).bind fun _ ↦
      (Relocates.require _ _).bind fun _ ↦ (hinner .lowest).bind fun _ ↦ .pure _
  · cases h
    change Relocates move (assignment inner left span) (assignment inner left (move span))
    unfold assignment
    have hvalue := (hinner .lowest).bind fun value ↦ Relocates.pure (Expr.assign left value)
    split
    · exact hvalue
    · exact (Relocates.report _ _).bind fun _ ↦ hvalue
  · obtain ⟨op, -, rfl⟩ := Option.map_eq_some_iff.1 h
    exact (hinner op.precedence.tighter).bind fun _ ↦ .pure _
  · cases h

theorem continuations_relocates (limit : Nat) (minimum : Precedence) (operand : Expr) :
    Relocates move (continuations inner limit minimum operand)
      (continuations inner limit minimum operand) := by
  refine .iterate (fun left ↦ .current fun token ↦ ?_) limit operand
  rw [Token.kind_relocate]
  cases hcontinuation : continuation? inner limit token.kind with
  | none => exact .pure _
  | some continuation =>
    dsimp only
    split
    · exact Relocates.shift.bind fun _ ↦
        (continuation?_relocates hinner hcontinuation left token.span).bind fun _ ↦ .pure _
    · exact .pure _

end Inner

theorem expressionWithin_relocates (limit : Nat) (minimum : Precedence) :
    Relocates move (expressionWithin limit minimum) (expressionWithin limit minimum) := by
  induction limit generalizing minimum with
  | zero => exact .pure _
  | succ limit ih =>
    refine .current fun token ↦ ?_
    rw [Token.kind_relocate]
    cases hrest : opening? (expressionWithin limit) token.kind with
    | none =>
      exact (Relocates.report _ _).bind fun _ ↦ (Relocates.skipWhile _).bind fun _ ↦ .pure _
    | some rest =>
      exact Relocates.shift.bind fun _ ↦ (opening?_relocates ih hrest).bind fun operand ↦
        continuations_relocates ih limit minimum operand

/-! ## Statements -/

theorem terminated_relocates (limit : Nat) (statement : Terminated) :
    Relocates move (terminated limit statement) (terminated limit statement) := by
  refine (expressionWithin_relocates limit .lowest).bind fun value ↦
    Relocates.bind ?_ fun _ ↦ .pure _
  unfold terminate
  split
  · exact .optional _
  · exact .require _ _

theorem declaration_relocates (limit : Nat) :
    Relocates move (declaration limit) (declaration limit) := by
  refine Relocates.shift.bind fun _ ↦ .advance fun token ↦ ?_
  rw [Token.kind_relocate]
  split
  · refine (Relocates.sees _).bind fun seen ↦ ?_
    split
    · exact Relocates.shift.bind fun _ ↦ .pure _
    · exact (Relocates.require _ _).bind fun _ ↦ (terminated_relocates limit _).bind fun _ ↦ .pure _
  · exact (Relocates.report _ _).bind fun _ ↦ (Relocates.skipWhile _).bind fun _ ↦ .pure _

theorem statements_relocates {element : Parser Stmt} (helement : Relocates move element element)
    (ends : TokenKind → Bool) (limit : Nat) :
    Relocates move (statements element ends limit) (statements element ends limit) := by
  refine .iterate (fun parsed ↦ .current fun token ↦ ?_) limit []
  rw [Token.kind_relocate]
  split
  · exact .pure _
  · exact helement.bind fun _ ↦ .pure _

theorem labels_relocates (limit : Nat) (defaultSeen : Bool) :
    Relocates move (labels limit defaultSeen) (labels limit defaultSeen) := by
  refine .iterate (fun parsed ↦ .current fun token ↦ ?_) limit _
  rw [Token.kind_relocate]
  split
  · refine Relocates.bind (.advance fun token ↦ ?_) fun _ ↦ .pure _
    rw [Token.kind_relocate]
    dsimp only
    split
    · have hcolon : Relocates move (require (.mark .colon) .defaultWithoutColon) _ :=
        .require _ _
      split
      · exact (Relocates.report _ _).bind fun _ ↦ hcolon.bind fun _ ↦ .pure _
      · exact hcolon.bind fun _ ↦ .pure _
    · exact (expressionWithin_relocates limit .lowest).bind fun _ ↦
        (Relocates.require _ _).bind fun _ ↦ .pure _
  · exact .pure _

theorem binding_relocates : Relocates move binding binding := by
  refine .advance fun token ↦ ?_
  rw [Token.kind_relocate]
  split
  · exact .pure _
  · exact (Relocates.report _ _).bind fun _ ↦ .pure _

section Inside

variable {statement : Bool → Parser Stmt}
  (hstatement : ∀ mayDeclare, Relocates move (statement mayDeclare) (statement mayDeclare))
include hstatement

theorem branch_relocates : Relocates move (branch statement) (branch statement) := by
  refine (Relocates.skipWhile _).bind fun _ ↦ .current fun token ↦ ?_
  rw [Token.kind_relocate]
  dsimp only
  split
  · exact (Relocates.report _ _).bind fun _ ↦ hstatement false
  · exact hstatement false

theorem guarded_relocates (limit : Nat) :
    Relocates move (guarded statement limit) (guarded statement limit) :=
  (Relocates.require _ _).bind fun _ ↦ (expressionWithin_relocates limit .lowest).bind fun _ ↦
    (Relocates.require _ _).bind fun _ ↦ (branch_relocates hstatement).bind fun _ ↦ .pure _

theorem alternative_relocates (limit links : Nat) :
    Relocates move (alternative statement limit links) (alternative statement limit links) := by
  induction links with
  | zero => exact .pure _
  | succ links ih =>
    refine .current fun token ↦ ?_
    rw [Token.kind_relocate]
    dsimp only
    split
    · exact Relocates.shift.bind fun _ ↦ (guarded_relocates hstatement limit).bind fun _ ↦
        ih.bind fun _ ↦ .pure _
    · exact Relocates.shift.bind fun _ ↦ (branch_relocates hstatement).bind fun _ ↦ .pure _
    · exact .pure _

theorem body_relocates (limit : Nat) :
    Relocates move (body statement limit) (body statement limit) :=
  (Relocates.expect _ _).bind fun _ ↦
    (statements_relocates (hstatement true) endsBody limit).bind fun _ ↦
    (Relocates.require _ _).bind fun _ ↦ .pure _

theorem armStatement_relocates :
    Relocates move (armStatement statement) (armStatement statement) := by
  refine .current fun start ↦ (hstatement true).bind fun parsed ↦ ?_
  dsimp only
  split
  · exact (Relocates.report _ _).bind fun _ ↦ .pure _
  · exact .pure _

theorem arms_relocates (limit : Nat) :
    Relocates move (arms statement limit) (arms statement limit) := by
  refine Relocates.bind (.iterate (fun parsed ↦ .current fun token ↦ ?_) limit _) fun _ ↦ .pure _
  rw [Token.kind_relocate]
  split
  · exact (labels_relocates limit _).bind fun _ ↦
      (statements_relocates (armStatement_relocates hstatement) endsArm limit).bind fun _ ↦ .pure _
  · exact .pure _

theorem switch_relocates (limit : Nat) :
    Relocates move (switch statement limit) (switch statement limit) :=
  (expressionWithin_relocates limit .lowest).bind fun _ ↦ (Relocates.require _ _).bind fun _ ↦
    (arms_relocates hstatement limit).bind fun _ ↦ (Relocates.require _ _).bind fun _ ↦ .pure _

theorem attempt_relocates (limit : Nat) :
    Relocates move (attempt statement limit) (attempt statement limit) :=
  (body_relocates hstatement limit).bind fun _ ↦ (Relocates.expect _ _).bind fun _ ↦
    (Relocates.require _ _).bind fun _ ↦ binding_relocates.bind fun _ ↦
    (Relocates.require _ _).bind fun _ ↦ (body_relocates hstatement limit).bind fun _ ↦ .pure _

theorem statementAt_relocates (limit : Nat) (mayDeclare : Bool) (token : Token) :
    Relocates move (statementAt statement limit mayDeclare token)
      (statementAt statement limit mayDeclare (token.relocate move)) := by
  unfold statementAt
  rw [Token.kind_relocate]
  split
  · exact .pure _
  · dsimp only
    split
    · exact declaration_relocates limit
    · exact (Relocates.report _ _).bind fun _ ↦ declaration_relocates limit
  · exact Relocates.shift.bind fun _ ↦ (guarded_relocates hstatement limit).bind fun _ ↦
      (alternative_relocates hstatement limit limit).bind fun _ ↦ .pure _
  · exact Relocates.shift.bind fun _ ↦ (guarded_relocates hstatement limit).bind fun _ ↦ .pure _
  · exact Relocates.shift.bind fun _ ↦ (terminated_relocates limit _).bind fun _ ↦ .pure _
  · exact Relocates.shift.bind fun _ ↦ switch_relocates hstatement limit
  · exact Relocates.shift.bind fun _ ↦ attempt_relocates hstatement limit
  · exact Relocates.shift.bind fun _ ↦ (terminated_relocates limit _).bind fun _ ↦ .pure _
  · exact Relocates.shift.bind fun _ ↦ (Relocates.require _ _).bind fun _ ↦ .pure _
  · exact (body_relocates hstatement limit).bind fun _ ↦ .pure _
  · exact (terminated_relocates limit _).bind fun _ ↦ .pure _

end Inside

theorem statementWithin_relocates (limit : Nat) (mayDeclare : Bool) :
    Relocates move (statementWithin limit mayDeclare) (statementWithin limit mayDeclare) := by
  induction limit generalizing mayDeclare with
  | zero => exact .pure _
  | succ limit ih =>
    exact (Relocates.skipWhile _).bind fun _ ↦ .current fun token ↦
      statementAt_relocates ih _ mayDeclare token

/-! ## Whole expressions and programs -/

theorem expression_relocates (minimum : Precedence) :
    Relocates move (expression minimum) (expression minimum) := by
  intro state other h
  have hother :
      expression minimum other = expressionWithin (state.remaining + 1) minimum other := by
    rw [← h.remaining_eq]
    rfl
  rw [hother]
  exact expressionWithin_relocates (state.remaining + 1) minimum state other h

/-- A moved text is read as the same program, with its reports moved. -/
theorem program_relocates {state other : ParseState} (h : state.Moved move other) :
    (program other).1.body = (program state).1.body ∧
      (program other).1.diagnostics =
        (program state).1.diagnostics.map (Diagnostic.relocate move) ∧
      (program state).2.Moved move (program other).2 := by
  have helement : Relocates move (statementWithin (state.remaining + 1) true) _ :=
    statementWithin_relocates _ true
  obtain ⟨hbody, hafter⟩ :=
    statements_relocates helement (· = .eof) (state.remaining + 1) state other h
  rw [program_apply, program_apply, h.remaining_eq]
  exact ⟨hbody, hafter.diagnostics_eq, hafter.current_eq, hafter.upcoming_eq, rfl⟩

end Parser

end Slang
