import Slang.Token.Cursor

/-!
# The state of a parser

A parser looks at one token, takes it or leaves it, and records diagnostics. What the scanner had
to report on the way to a token is recorded when that token comes into view. Each diagnostic is kept
and is written to a report at once. The end of the text stays in view however often it is taken.
-/

namespace Slang

structure ParseState where
  /-- The token in view. -/
  current : Token
  upcoming : List Lexeme
  /-- What has been recorded since the last complete parse, in order. -/
  diagnostics : List Diagnostic
  /-- What has been written about that. -/
  report : String
  /-- How reports are painted, if colours are asked for. -/
  colors : Option Painter
  /-- The lines of the text. -/
  lines : List String

namespace ParseState

/-- Keeps a diagnostic and writes it to the report. -/
def record (diagnostic : Diagnostic) (state : ParseState) : ParseState :=
  { state with
    diagnostics := state.diagnostics ++ [diagnostic]
    report := state.report ++ diagnostic.render state.colors state.lines }

/-- Records what the scanner had to report, one diagnostic after the other. -/
def absorb (reports : List Diagnostic) (state : ParseState) : ParseState :=
  reports.foldl (fun state report ↦ state.record report) state

/-- The state in front of the first token of a text. -/
def ofSource (colors : Option Painter) (source : String) : ParseState :=
  let all := (Cursor.ofSource source).lexemes
  absorb all.1.reports ⟨all.1.token, all.2, [], "", colors, linesOf source⟩

section Absorb

variable (reports : List Diagnostic) (state : ParseState)

@[simp] theorem current_absorb : (state.absorb reports).current = state.current := by
  induction reports generalizing state with
  | nil => rfl
  | cons report reports ih => exact ih (state.record report)

@[simp] theorem upcoming_absorb : (state.absorb reports).upcoming = state.upcoming := by
  induction reports generalizing state with
  | nil => rfl
  | cons report reports ih => exact ih (state.record report)

@[simp] theorem diagnostics_absorb :
    (state.absorb reports).diagnostics = state.diagnostics ++ reports := by
  induction reports generalizing state with
  | nil => exact (List.append_nil _).symm
  | cons report reports ih =>
    refine (ih (state.record report)).trans ?_
    change state.diagnostics ++ [report] ++ reports = _
    rw [List.append_assoc, List.singleton_append]

end Absorb

/-- The number of tokens behind the one in view. -/
def remaining (state : ParseState) : Nat :=
  state.upcoming.length

/-- The tokens that have not been taken. -/
def tokens (state : ParseState) : List Token :=
  state.current :: state.upcoming.map Lexeme.token

/-- Brings the next token into view. -/
def shift (state : ParseState) : ParseState :=
  match state.upcoming with
  | [] => state
  | lexeme :: upcoming =>
    { state.absorb lexeme.reports with
      current := lexeme.token
      upcoming := upcoming }

/-- Shifts at most once for each lexeme of a list, while the token in view is to be skipped. -/
def skipWithin (skip : TokenKind → Bool) : List Lexeme → ParseState → ParseState
  | [], state => state
  | _ :: lexemes, state =>
    if skip state.current.kind then skipWithin skip lexemes state.shift else state

/-- Passes over tokens that are to be skipped. The end of the text is never passed. -/
def skipWhile (skip : TokenKind → Bool) (state : ParseState) : ParseState :=
  state.skipWithin skip state.upcoming

theorem tokens_shift_of_remaining_pos {state : ParseState} (h : 0 < state.remaining) :
    state.tokens = state.current :: state.shift.tokens := by
  unfold remaining at h
  unfold tokens shift
  split <;> simp_all

/-- The report, if anything was written. -/
def report? (state : ParseState) : Option String :=
  if state.report.isEmpty then none else some state.report

/-- The state after the diagnostics and the report were handed over. -/
def handedOver (state : ParseState) : ParseState :=
  { state with diagnostics := [], report := "" }

end ParseState

abbrev Parser := StateM ParseState

namespace Parser

/-- The token in view. -/
def current : Parser Token := do
  return (← get).current

/-- Takes the token in view. -/
def advance : Parser Token := do
  let token ← current
  modify ParseState.shift
  return token

/-- Whether a token of this kind is in view. -/
def sees (kind : TokenKind) : Parser Bool := do
  return decide ((← current).kind = kind)

def report (problem : Problem) (span : Span) : Parser Unit :=
  modify (ParseState.record ⟨problem, span, .error⟩)

/-- Takes the token in view, and reports a problem with it unless it is of this kind. -/
def expect (kind : TokenKind) (problem : Problem) : Parser Unit := do
  let token ← advance
  if token.kind = kind then pure () else report problem token.span

/-- Takes the token in view if it is of this kind, and else leaves it and reports a problem. -/
def require (kind : TokenKind) (problem : Problem) : Parser Unit := do
  let token ← current
  if token.kind = kind then modify ParseState.shift else report problem token.span

/-- Takes the token in view if it is of this kind. -/
def optional (kind : TokenKind) : Parser Unit := do
  if ← sees kind then modify ParseState.shift else pure ()

/-- Repeats a step until it is done, at most `limit` times. -/
def iterate {Result : Type} (step : Result → Parser (ForInStep Result)) :
    Nat → Result → Parser Result
  | 0, result => pure result
  | limit + 1, result => do
    match ← step result with
    | .done final => pure final
    | .yield next => iterate step limit next

/-- The tokens at which reading goes on after a token that begins no expression. -/
def isRestart : TokenKind → Bool
  | .mark .semicolon | .eof | .keyword .declare | .keyword .switch | .keyword .attempt
  | .keyword .when => true
  | _ => false

/-- Passes over tokens up to one at which reading can go on. -/
def synchronize : Parser Unit :=
  modify (ParseState.skipWhile fun kind ↦ !isRestart kind)

def skipSemicolons : Parser Unit :=
  modify (ParseState.skipWhile (· = .mark .semicolon))

end Parser

end Slang
