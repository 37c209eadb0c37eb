import Slang.Proofs.TokenStream

/-!
# Reports as they are written

A parser keeps a diagnostic and writes it to its report at the same moment. So at any time the
report is what is kept, shown one diagnostic after the other. No diagnostic is shown as nothing, so
there is a report to hand over exactly if there are diagnostics. Whether anything was reported hence
depends neither on the colours nor on the lines that are shown.
-/

namespace Slang

/-- Diagnostics shown one after the other. -/
def renderAll (colors : Option Painter) (lines : List String) (diagnostics : List Diagnostic) :
    String :=
  String.join (diagnostics.map (Diagnostic.render colors lines))

section Rendering

variable (colors : Option Painter) (lines : List String)

theorem Diagnostic.render_ne_empty (diagnostic : Diagnostic) :
    diagnostic.render colors lines ≠ "" := by
  intro h
  have hnewline := (String.append_eq_empty_iff.1 h).2
  exact absurd hnewline (by decide)

theorem renderAll_concat (diagnostics : List Diagnostic) (last : Diagnostic) :
    renderAll colors lines (diagnostics ++ [last]) =
      renderAll colors lines diagnostics ++ last.render colors lines := by
  simp only [renderAll, List.map_append, List.map_cons, List.map_nil, String.join_append,
    String.join_cons, String.join_nil, String.append_empty]

theorem renderAll_eq_empty_iff (diagnostics : List Diagnostic) :
    renderAll colors lines diagnostics = "" ↔ diagnostics = [] := by
  constructor
  · intro h
    cases diagnostics with
    | nil => rfl
    | cons diagnostic diagnostics =>
      rw [renderAll, List.map_cons, String.join_cons, String.append_eq_empty_iff] at h
      exact absurd h.1 (diagnostic.render_ne_empty colors lines)
  · rintro rfl
    rfl

end Rendering

namespace ParseState

/-- The report is what was recorded, in the given colours and with the given lines. -/
structure IsWritten (colors : Option Painter) (lines : List String) (state : ParseState) :
    Prop where
  colors_eq : state.colors = colors
  lines_eq : state.lines = lines
  report_eq : state.report = renderAll colors lines state.diagnostics

namespace IsWritten

variable {colors : Option Painter} {lines : List String} {state after : ParseState}

theorem record (h : state.IsWritten colors lines) (diagnostic : Diagnostic) :
    (state.record diagnostic).IsWritten colors lines := by
  refine ⟨h.colors_eq, h.lines_eq, ?_⟩
  change state.report ++ diagnostic.render state.colors state.lines =
    renderAll colors lines (state.diagnostics ++ [diagnostic])
  rw [h.report_eq, h.colors_eq, h.lines_eq, renderAll_concat]

theorem absorb (h : state.IsWritten colors lines) (reports : List Diagnostic) :
    (state.absorb reports).IsWritten colors lines := by
  induction reports generalizing state with
  | nil => exact h
  | cons report reports ih => exact ih (h.record report)

theorem shift (h : state.IsWritten colors lines) : state.shift.IsWritten colors lines := by
  cases hupcoming : state.upcoming with
  | nil => rwa [shift_of_upcoming_nil hupcoming]
  | cons lexeme upcoming =>
    have habsorbed := h.absorb lexeme.reports
    rw [shift_of_upcoming_cons hupcoming]
    exact ⟨habsorbed.colors_eq, habsorbed.lines_eq, habsorbed.report_eq⟩

theorem handedOver (h : state.IsWritten colors lines) :
    state.handedOver.IsWritten colors lines :=
  ⟨h.colors_eq, h.lines_eq, rfl⟩

theorem of_takes (h : state.IsWritten colors lines) {taken : List Token}
    (htakes : state.Takes taken after) : after.IsWritten colors lines := by
  induction htakes with
  | refl => exact h
  | shift _ _ ih => exact ih.shift
  | record _ diagnostic ih => exact ih.record diagnostic

theorem report?_eq_none_iff (h : state.IsWritten colors lines) :
    state.report? = none ↔ state.diagnostics = [] := by
  rw [← renderAll_eq_empty_iff colors lines, ← h.report_eq, ← String.isEmpty_iff]
  simp [ParseState.report?]

theorem report?_of_diagnostics (h : state.IsWritten colors lines) (hsome : state.diagnostics ≠ []) :
    state.report? = some (renderAll colors lines state.diagnostics) := by
  have hreport : state.report ≠ "" := by
    rw [h.report_eq]
    exact mt (renderAll_eq_empty_iff _ _ _).1 hsome
  rw [ParseState.report?, String.isEmpty_eq_false_iff.2 hreport, h.report_eq]
  rfl

theorem getD_report? (h : state.IsWritten colors lines) :
    state.report?.getD "" = renderAll colors lines state.diagnostics := by
  by_cases hnone : state.diagnostics = []
  · rw [h.report?_eq_none_iff.2 hnone, hnone]
    rfl
  · rw [h.report?_of_diagnostics hnone]
    rfl

end IsWritten

theorem isWritten_ofSource (colors : Option Painter) (source : String) :
    (ofSource colors source).IsWritten colors (linesOf source) := by
  let all := (Cursor.ofSource source).lexemes
  have hnothing : IsWritten colors (linesOf source)
      ⟨all.1.token, all.2, [], "", colors, linesOf source⟩ := ⟨rfl, rfl, rfl⟩
  exact hnothing.absorb all.1.reports

end ParseState

end Slang
