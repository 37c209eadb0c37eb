import Slang.Proofs.ParserReports
import Slang.Proofs.Relocation
import Slang.Proofs.Renderings

/-!
# Reports of a parser that is asked again

A parser can be asked for expressions and for programs, and can be given notes, as often and in
whatever order. What it records stays with it until a program is asked for, and is then handed over
once, both as diagnostics and as it is shown. Two parsers in front of the same text with different
colours go through the same states but for what they write, so colour changes no answer but the
reports. A report in colour is the plain one with the label, the gutter and the carets of each
diagnostic wrapped in what the terminal library puts around them.
-/

namespace Slang

/-! ## What is recorded -/

namespace ParseState

/-- The steps from one state to another, and all that is recorded on the way: what comes with the
tokens that come into view, and what is reported about them. -/
inductive Records (state : ParseState) : List Diagnostic → ParseState → Prop
  | refl : Records state [] state
  | shift {recorded : List Diagnostic} {after : ParseState} (before : Records state recorded after)
      {lexeme : Lexeme} {upcoming : List Lexeme} (comes : after.upcoming = lexeme :: upcoming) :
      Records state (recorded ++ lexeme.reports) after.shift
  | record {recorded : List Diagnostic} {after : ParseState} (before : Records state recorded after)
      (diagnostic : Diagnostic) :
      Records state (recorded ++ [diagnostic]) (after.record diagnostic)

/-- Nothing that was recorded is lost or repeated on the way. -/
theorem Records.diagnostics_eq {state after : ParseState} {recorded : List Diagnostic}
    (h : state.Records recorded after) : after.diagnostics = state.diagnostics ++ recorded := by
  induction h with
  | refl => rw [List.append_nil]
  | shift _ comes ih => rw [diagnostics_shift comes, ih, List.append_assoc]
  | @record recorded after _ diagnostic ih =>
    change after.diagnostics ++ [diagnostic] = _
    rw [ih, List.append_assoc]

theorem IsWritten.of_records {colors : Option Painter} {lines : List String}
    {state after : ParseState} (h : state.IsWritten colors lines) {recorded : List Diagnostic}
    (hrecords : state.Records recorded after) : after.IsWritten colors lines := by
  induction hrecords with
  | refl => exact h
  | shift _ _ ih => exact ih.shift
  | record _ diagnostic ih => exact ih.record diagnostic

theorem Logs.exists_records {tokens : List Token} {state after : ParseState}
    {logged : List Diagnostic} (h : state.Logs tokens logged after) :
    ∃ recorded, state.Records recorded after := by
  induction h with
  | refl => exact ⟨[], .refl⟩
  | @shift _ after _ ih =>
    obtain ⟨recorded, hrecorded⟩ := ih
    cases hupcoming : after.upcoming with
    | nil =>
      rw [shift_of_upcoming_nil hupcoming]
      exact ⟨recorded, hrecorded⟩
    | cons lexeme upcoming => exact ⟨_, hrecorded.shift hupcoming⟩
  | report _ _ _ ih =>
    obtain ⟨recorded, hrecorded⟩ := ih
    exact ⟨_, hrecorded.record _⟩

end ParseState

namespace Parser

open ParseState

theorem expression_records (minimum : Precedence) (state : ParseState) :
    ∃ recorded, state.Records recorded (expression minimum state).2 := by
  obtain ⟨logged, hlogged⟩ :=
    expressionWithin_logs (state.remaining + 1) minimum state (List.Subset.refl _)
  exact hlogged.exists_records

theorem program_records (state : ParseState) :
    ∃ recorded last body, state.Records recorded last ∧
      program state = (⟨body, last.diagnostics, last.report?⟩, last.handedOver) := by
  obtain ⟨logged, last, hlogged, hprogram⟩ := program_logs (List.Subset.refl state.tokens)
  obtain ⟨recorded, hrecorded⟩ := hlogged.exists_records
  exact ⟨recorded, last, _, hrecorded, hprogram⟩

/-! ## Calls -/

/-- What can be asked of a parser. -/
inductive Call where
  | expression (minimum : Precedence)
  | note (text : String) (span : Span)
  | program
  deriving DecidableEq

inductive Answer where
  | value (expr : Expr)
  | noted
  | parsed (parsed : Parsed)

/-- An answer without its report. -/
def Answer.unreported : Answer → Answer
  | .parsed program => .parsed ⟨program.body, program.diagnostics, none⟩
  | answer => answer

def Call.answer : Call → Parser Answer
  | expression minimum => return .value (← Parser.expression minimum)
  | note text span => do
    report (.note text) span
    return .noted
  | program => return .parsed (← Parser.program)

theorem Call.answer_program (state : ParseState) :
    Call.program.answer state =
      (.parsed (Parser.program state).1, (Parser.program state).2) := rfl

/-- The answers to calls that are made one after the other. -/
def answers (calls : List Call) : Parser (List Answer) :=
  calls.mapM Call.answer

theorem answers_cons (call : Call) (calls : List Call) (state : ParseState) :
    answers (call :: calls) state =
      ((call.answer state).1 :: (answers calls (call.answer state).2).1,
        (answers calls (call.answer state).2).2) := by
  rw [answers, List.mapM_cons]
  rfl

theorem answers_append (calls others : List Call) (state : ParseState) :
    answers (calls ++ others) state =
      ((answers calls state).1 ++ (answers others (answers calls state).2).1,
        (answers others (answers calls state).2).2) := by
  rw [answers, List.mapM_append]
  rfl

theorem length_answers (calls : List Call) (state : ParseState) :
    (answers calls state).1.length = calls.length := by
  induction calls generalizing state with
  | nil => rfl
  | cons call calls ih => rw [answers_cons, List.length_cons, ih, List.length_cons]

/-- The answer to a call depends on the calls before it alone. -/
theorem getElem?_answers (before : List Call) (call : Call) (behind : List Call)
    (state : ParseState) :
    (answers (before ++ call :: behind) state).1[before.length]? =
      some (call.answer (answers before state).2).1 := by
  have hlength := length_answers before state
  rw [answers_append, answers_cons, ← hlength, List.getElem?_append_right (Nat.le_refl _),
    Nat.sub_self]
  rfl

/-! ## What is written -/

section Written

variable {colors : Option Painter} {lines : List String} {state : ParseState}
  (h : state.IsWritten colors lines)
include h

theorem answer_isWritten (call : Call) : (call.answer state).2.IsWritten colors lines := by
  cases call with
  | expression minimum =>
    obtain ⟨recorded, hrecorded⟩ := expression_records minimum state
    exact h.of_records hrecorded
  | note text span => exact h.record _
  | program =>
    obtain ⟨recorded, last, body, hrecorded, hprogram⟩ := program_records state
    rw [Call.answer_program, hprogram]
    exact (h.of_records hrecorded).handedOver

theorem answers_isWritten (calls : List Call) :
    (answers calls state).2.IsWritten colors lines := by
  induction calls generalizing state with
  | nil => exact h
  | cons call calls ih =>
    rw [answers_cons]
    exact ih (answer_isWritten h call)

end Written

/-! ## Colours -/

/-- Two parsers with the same tokens and diagnostics in front of them answer a call alike but for
the report, whatever they write. -/
theorem answer_moved {state other : ParseState} (h : state.Moved id other) (call : Call) :
    (call.answer other).1.unreported = (call.answer state).1.unreported ∧
      (call.answer state).2.Moved id (call.answer other).2 := by
  cases call with
  | expression minimum =>
    obtain ⟨hvalue, hafter⟩ := expression_relocates minimum state other h
    exact ⟨congrArg Answer.value hvalue, hafter⟩
  | note text span => exact ⟨rfl, h.record ⟨.note text, span, .error⟩⟩
  | program =>
    obtain ⟨hbody, hdiagnostics, hafter⟩ := program_relocates h
    rw [Diagnostic.relocate_id, List.map_id] at hdiagnostics
    rw [Call.answer_program, Call.answer_program, Answer.unreported, Answer.unreported, hbody,
      hdiagnostics]
    exact ⟨rfl, hafter⟩

theorem answers_moved {state other : ParseState} (h : state.Moved id other) (calls : List Call) :
    (answers calls other).1.map Answer.unreported =
      (answers calls state).1.map Answer.unreported := by
  induction calls generalizing state other with
  | nil => rfl
  | cons call calls ih =>
    obtain ⟨hanswer, hafter⟩ := answer_moved h call
    rw [answers_cons, answers_cons, List.map_cons, List.map_cons, hanswer, ih hafter]

theorem moved_ofSource (colors other : Option Painter) (source : String) :
    (ofSource colors source).Moved id (ofSource other source) := by
  constructor
  · rw [current_ofSource, current_ofSource]
    rfl
  · rw [upcoming_ofSource, upcoming_ofSource, Lexeme.relocate_id, List.map_id]
  · rw [diagnostics_ofSource, diagnostics_ofSource, Diagnostic.relocate_id, List.map_id]

/-! ## What is handed over -/

/-- The calls from one state to another, none of which asks for a program, and all that is recorded
in their course. -/
inductive Recording : ParseState → List Call → List Diagnostic → ParseState → Prop
  | nil (state : ParseState) : Recording state [] [] state
  | expression {state last : ParseState} {minimum : Precedence} {calls : List Call}
      {recorded more : List Diagnostic}
      (read : state.Records recorded (Parser.expression minimum state).2)
      (later : Recording (Parser.expression minimum state).2 calls more last) :
      Recording state (.expression minimum :: calls) (recorded ++ more) last
  | note {state last : ParseState} {text : String} {span : Span} {calls : List Call}
      {more : List Diagnostic}
      (later : Recording (state.record ⟨.note text, span, .error⟩) calls more last) :
      Recording state (.note text span :: calls) (⟨.note text, span, .error⟩ :: more) last

theorem Recording.diagnostics_eq {state last : ParseState} {calls : List Call}
    {recorded : List Diagnostic} (h : Recording state calls recorded last) :
    last.diagnostics = state.diagnostics ++ recorded := by
  induction h with
  | nil => rw [List.append_nil]
  | expression read _ ih => rw [ih, read.diagnostics_eq, List.append_assoc]
  | @note state _ text span _ _ _ ih =>
    rw [ih]
    change state.diagnostics ++ [_] ++ _ = _
    rw [List.append_assoc, List.singleton_append]

theorem exists_recording {calls : List Call} (h : .program ∉ calls) (state : ParseState) :
    ∃ recorded, Recording state calls recorded (answers calls state).2 := by
  induction calls generalizing state with
  | nil => exact ⟨[], .nil state⟩
  | cons call calls ih =>
    obtain ⟨hcall, hcalls⟩ := not_or.1 (mt List.mem_cons.2 h)
    obtain ⟨more, hmore⟩ := ih hcalls (call.answer state).2
    rw [answers_cons]
    cases call with
    | expression minimum =>
      obtain ⟨recorded, hrecorded⟩ := expression_records minimum state
      exact ⟨recorded ++ more, .expression hrecorded hmore⟩
    | note text span => exact ⟨_, .note hmore⟩
    | program => exact absurd rfl hcall

/-- A parser that was just asked for a program has nothing recorded. -/
theorem diagnostics_of_getLast? {calls : List Call} (h : calls.getLast? = some .program)
    (state : ParseState) : (answers calls state).2.diagnostics = [] := by
  obtain ⟨front, rfl⟩ := List.getLast?_eq_some_iff.1 h
  rw [answers_append]
  rfl

end Parser

open Parser ParseState Diagnostic

/-- What was recorded when nothing has been asked: what was found on the way to the first token. -/
def firstReports (source : String) : List Diagnostic :=
  (Cursor.ofSource source).lexemes.1.reports

/-- What is handed over with a program is what was recorded since the one before, both as it is and
as it is shown. -/
theorem exists_handed_over (colors : Option Painter) (source : String)
    {earlier between : List Call}
    (hearlier : earlier = [] ∨ earlier.getLast? = some .program) (hbetween : .program ∉ between)
    (later : List Call) :
    let start := (answers earlier (.ofSource colors source)).2
    ∃ recorded stop more last body,
      Recording start between recorded stop ∧ stop.Records more last ∧
      last.diagnostics = (if earlier = [] then firstReports source else []) ++ recorded ++ more ∧
      last.IsWritten colors (linesOf source) ∧
      (answers (earlier ++ between ++ .program :: later)
          (.ofSource colors source)).1[(earlier ++ between).length]? =
        some (.parsed ⟨body, last.diagnostics, last.report?⟩) := by
  intro start
  have hstart : start.diagnostics = if earlier = [] then firstReports source else [] := by
    rcases hearlier with rfl | hlast
    · exact diagnostics_ofSource colors source
    · rw [if_neg (by rintro rfl; cases hlast)]
      exact diagnostics_of_getLast? hlast _
  have hwritten : start.IsWritten colors (linesOf source) :=
    answers_isWritten (isWritten_ofSource colors source) earlier
  obtain ⟨recorded, hrecording⟩ := exists_recording hbetween start
  obtain ⟨more, last, body, hrecords, hprogram⟩ := program_records (answers between start).2
  refine ⟨recorded, _, more, last, body, hrecording, hrecords, ?_, ?_, ?_⟩
  · rw [hrecords.diagnostics_eq, hrecording.diagnostics_eq, hstart]
  · exact (answers_isWritten hwritten between).of_records hrecords
  · rw [getElem?_answers, answers_append, Call.answer_program, hprogram]

/-- What a host program has to say about the string of `'a`. -/
def hostNote : Diagnostic :=
  ⟨.note "b", ⟨⟨1, 2, 1⟩, 1⟩, .error⟩

/-- How that is written in colour, under the line it is about. -/
def hostReport : String :=
  "\x1b[1;31merror:\x1b[0m b\n\x1b[94m1:2 | \x1b[0m'a\n       \x1b[1;31m^\x1b[0m\n"

end Slang
