import Slang.Proofs.Progress
import Slang.Proofs.Relocation
import Slang.Run

/-!
# Layout means nothing

Blanks, line breaks, comments, the choice between the two quotes and the spelling of a numeral are
gone once a text is cut into tokens, and only show in where the tokens stand. With all places
forgotten, two texts with the same kinds of tokens lead to the same tokens in front of a parser.
Parsing commutes with forgetting places, so such texts are read as the same program, with the same
problems in the same order. Where those problems are shown does depend on the layout.
-/

namespace Slang

open Parser

/-- Forgets where something stands. -/
def Span.forgotten : Span → Span :=
  fun _ ↦ ⟨.start, 0⟩

namespace ParseState

/-- The state with all places forgotten. -/
def unplaced (state : ParseState) : ParseState :=
  { state with
    current := state.current.relocate Span.forgotten
    upcoming := state.upcoming.map (Lexeme.relocate Span.forgotten)
    diagnostics := state.diagnostics.map (Diagnostic.relocate Span.forgotten) }

theorem moved_unplaced (state : ParseState) : state.Moved Span.forgotten state.unplaced :=
  ⟨rfl, rfl, rfl⟩

/-- Without reports, only the kinds of the tokens are left when their places are forgotten. -/
theorem upcoming_unplaced {state : ParseState} (h : state.reports = []) :
    state.unplaced.upcoming = (state.upcoming.map (Token.kind ∘ Lexeme.token)).map
      fun kind ↦ ⟨⟨kind, ⟨.start, 0⟩⟩, []⟩ := by
  rw [List.map_map]
  apply List.map_congr_left
  intro lexeme hmem
  have hreports : lexeme.reports = [] :=
    List.flatMap_eq_nil_iff.1 (List.append_eq_nil_iff.1 h).2 lexeme hmem
  rw [Lexeme.relocate, hreports]
  rfl

theorem moved_of_kinds {first second : ParseState} (hkinds : first.kinds = second.kinds)
    (hfirst : first.reports = []) (hsecond : second.reports = []) :
    second.Moved Span.forgotten first.unplaced := by
  rw [kinds_eq_cons, kinds_eq_cons] at hkinds
  obtain ⟨hcurrent, hupcoming⟩ := List.cons.inj hkinds
  have hdiagnostics (state : ParseState) (h : state.reports = []) :
      state.unplaced.diagnostics = [] :=
    List.map_eq_nil_iff.2 (List.append_eq_nil_iff.1 h).1
  constructor
  · exact congrArg (Token.mk · ⟨.start, 0⟩) hcurrent
  · rw [upcoming_unplaced hfirst, hupcoming, ← upcoming_unplaced hsecond]
    rfl
  · rw [hdiagnostics first hfirst, ← hdiagnostics second hsecond]
    rfl

end ParseState

section SameKinds

variable {first second : String}
  (hkinds : (Cursor.tokensOf first).map Token.kind = (Cursor.tokensOf second).map Token.kind)
  (hfirst : Cursor.reportsOf first = []) (hsecond : Cursor.reportsOf second = [])
  (colors other : Option Painter)
include hkinds hfirst hsecond

/-- Texts with the same kinds of tokens parse alike when the places of their reports are
forgotten. -/
theorem parse_unplaced_eq :
    (parse colors first).body = (parse other second).body ∧
      (parse colors first).diagnostics.map (Diagnostic.relocate Span.forgotten) =
        (parse other second).diagnostics.map (Diagnostic.relocate Span.forgotten) := by
  have hmoved : (ParseState.ofSource other second).Moved Span.forgotten
      (ParseState.ofSource colors first).unplaced := by
    apply ParseState.moved_of_kinds
    · rw [ParseState.kinds, ParseState.kinds, ParseState.tokens_ofSource,
        ParseState.tokens_ofSource, hkinds]
    · rw [ParseState.reports_ofSource, hfirst]
    · rw [ParseState.reports_ofSource, hsecond]
  obtain ⟨hbody, hdiagnostics, -⟩ := program_relocates (ParseState.moved_unplaced _)
  obtain ⟨hbody', hdiagnostics', -⟩ := program_relocates hmoved
  exact ⟨hbody.symm.trans hbody', hdiagnostics.symm.trans hdiagnostics'⟩

theorem parse_problems_eq_of_kinds :
    (parse colors first).diagnostics.map Diagnostic.problem =
      (parse other second).diagnostics.map Diagnostic.problem := by
  have hplaced := (parse_unplaced_eq hkinds hfirst hsecond colors other).2
  have hproblems := congrArg (List.map Diagnostic.problem) hplaced
  rwa [List.map_map, List.map_map] at hproblems

end SameKinds

/-- Two texts that differ in their layout only are read as the same program, with the same messages
in the same order, and run alike if they are read without reports. -/
theorem parse_of_same_kinds {first second : String}
    (hkinds : (Cursor.tokensOf first).map Token.kind = (Cursor.tokensOf second).map Token.kind)
    (hfirst : Cursor.reportsOf first = []) (hsecond : Cursor.reportsOf second = [])
    (colors other : Option Painter) :
    (parse colors first).body = (parse other second).body ∧
      (parse colors first).diagnostics.map (·.problem.message) =
        (parse other second).diagnostics.map (·.problem.message) ∧
      ((parse colors first).report = none ↔ (parse other second).report = none) ∧
      ((parse colors first).diagnostics = [] → ∀ rounds sink,
        run rounds colors sink first = run rounds other sink second) := by
  have hbody := (parse_unplaced_eq hkinds hfirst hsecond colors other).1
  have hproblems := parse_problems_eq_of_kinds hkinds hfirst hsecond colors other
  have hreport : (parse colors first).report = none ↔ (parse other second).report = none := by
    rw [report_parse_eq_none_iff, report_parse_eq_none_iff, ← List.map_eq_nil_iff, hproblems,
      List.map_eq_nil_iff]
  refine ⟨hbody, ?_, hreport, ?_⟩
  · have hmessages := congrArg (List.map Problem.message) hproblems
    rwa [List.map_map, List.map_map] at hmessages
  · intro hclean rounds sink
    have hnone := (report_parse_eq_none_iff colors first).2 hclean
    rw [run_of_report_eq_none hnone, run_of_report_eq_none (hreport.1 hnone), hbody]

/-- Comments, line breaks, quotes and numerals differ, and so do the places of the two mistakes. -/
theorem respaced_parse :
    (Cursor.tokensOf "alpha 'x' // y\n alpha .50 + ;").map Token.kind =
        (Cursor.tokensOf "alpha\"x\"alpha 0.5/*+*/+\n;").map Token.kind ∧
      (parse none "alpha 'x' // y\n alpha .50 + ;").diagnostics.map (·.problem.message) =
        ["Expected ; after alpha statement", "Unexpected token ;"] ∧
      (parse none "alpha\"x\"alpha 0.5/*+*/+\n;").diagnostics.map (·.problem.message) =
        ["Expected ; after alpha statement", "Unexpected token ;"] := by
  have hkinds : (Cursor.tokensOf "alpha 'x' // y\n alpha .50 + ;").map Token.kind =
      (Cursor.tokensOf "alpha\"x\"alpha 0.5/*+*/+\n;").map Token.kind := by decide +kernel
  have hmessages :
      (parse none "alpha 'x' // y\n alpha .50 + ;").diagnostics.map (·.problem.message) =
        ["Expected ; after alpha statement", "Unexpected token ;"] := by decide +kernel
  have hsame :=
    parse_of_same_kinds hkinds (by decide +kernel) (by decide +kernel) none none
  exact ⟨hkinds, hmessages, hsame.2.1 ▸ hmessages⟩

end Slang
