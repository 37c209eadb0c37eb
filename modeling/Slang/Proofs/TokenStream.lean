import Slang.Parse.State

/-!
# Tokens taken by a parser

A parser moves through the tokens of a text in order: it takes the token in view or leaves it, and
records diagnostics. `Takes` is a run of such steps together with the tokens taken on the way. No
token is taken twice or passed over, nothing that was reported is lost, and the end of the text,
which is the last token, is never taken.
-/

namespace Slang

namespace ParseState

/-- The kinds of the tokens that have not been taken. -/
def kinds (state : ParseState) : List TokenKind :=
  state.tokens.map Token.kind

/-- The last token is the end of the text, and no other token is. -/
def Ended (state : ParseState) : Prop :=
  ∃ front, state.kinds = front ++ [.eof] ∧ TokenKind.eof ∉ front

/-- What was reported so far, and what will be reported when later tokens come into view. -/
def reports (state : ParseState) : List Diagnostic :=
  state.diagnostics ++ state.upcoming.flatMap Lexeme.reports

theorem shift_of_upcoming_nil {state : ParseState} (h : state.upcoming = []) :
    state.shift = state := by
  unfold shift
  rw [h]

theorem shift_of_upcoming_cons {state : ParseState} {lexeme : Lexeme} {upcoming : List Lexeme}
    (h : state.upcoming = lexeme :: upcoming) :
    state.shift =
      { state.absorb lexeme.reports with current := lexeme.token, upcoming := upcoming } := by
  unfold shift
  rw [h]

theorem diagnostics_shift {state : ParseState} {lexeme : Lexeme} {upcoming : List Lexeme}
    (h : state.upcoming = lexeme :: upcoming) :
    state.shift.diagnostics = state.diagnostics ++ lexeme.reports := by
  rw [shift_of_upcoming_cons h]
  exact diagnostics_absorb _ _

theorem kinds_eq_cons (state : ParseState) :
    state.kinds = state.current.kind :: state.upcoming.map (Token.kind ∘ Lexeme.token) := by
  simp [kinds, tokens]

theorem kinds_of_remaining_pos {state : ParseState} (h : 0 < state.remaining) :
    state.kinds = state.current.kind :: state.shift.kinds := by
  rw [kinds, tokens_shift_of_remaining_pos h, List.map_cons]
  rfl

theorem diagnostics_record_ne_nil (diagnostic : Diagnostic) (state : ParseState) :
    (state.record diagnostic).diagnostics ≠ [] :=
  List.append_ne_nil_of_right_ne_nil _ (List.cons_ne_nil _ _)

theorem reports_shift (state : ParseState) : state.shift.reports = state.reports := by
  cases hupcoming : state.upcoming with
  | nil => rw [shift_of_upcoming_nil hupcoming]
  | cons lexeme upcoming =>
    rw [shift_of_upcoming_cons hupcoming, reports, reports, hupcoming]
    simp

namespace Ended

variable {state : ParseState}

theorem current_eq_eof_iff (h : state.Ended) :
    state.current.kind = .eof ↔ state.remaining = 0 := by
  obtain ⟨front, hkinds, hfront⟩ := h
  rw [kinds_eq_cons] at hkinds
  cases front with
  | nil => simp_all [remaining]
  | cons kind front =>
    obtain ⟨rfl, hupcoming⟩ := List.cons.inj hkinds
    have hlength := congrArg List.length hupcoming
    simp at hlength
    refine iff_of_false (fun hkind ↦ hfront (hkind ▸ List.mem_cons_self ..)) ?_
    rw [remaining, hlength]
    exact Nat.succ_ne_zero _

theorem remaining_pos (h : state.Ended) (hcurrent : state.current.kind ≠ .eof) :
    0 < state.remaining :=
  Nat.pos_of_ne_zero fun hzero ↦ hcurrent (h.current_eq_eof_iff.2 hzero)

theorem shift (h : state.Ended) : state.shift.Ended := by
  by_cases hzero : state.upcoming = []
  · rwa [shift_of_upcoming_nil hzero]
  · have hpos : 0 < state.remaining := List.length_pos_iff.2 hzero
    obtain ⟨front, hkinds, hfront⟩ := h
    rw [kinds_of_remaining_pos hpos] at hkinds
    cases front with
    | nil =>
      have hnil := (List.cons.inj hkinds).2
      rw [kinds_eq_cons] at hnil
      cases hnil
    | cons kind front =>
      exact ⟨front, (List.cons.inj hkinds).2, fun hmem ↦ hfront (List.mem_cons_of_mem _ hmem)⟩

end Ended

/-- The steps from one state to another, and the tokens they take in order. -/
inductive Takes (state : ParseState) : List Token → ParseState → Prop
  | refl : Takes state [] state
  | shift {taken : List Token} {after : ParseState} (before : Takes state taken after)
      (more : 0 < after.remaining) : Takes state (taken ++ [after.current]) after.shift
  | record {taken : List Token} {after : ParseState} (before : Takes state taken after)
      (diagnostic : Diagnostic) : Takes state taken (after.record diagnostic)

namespace Takes

variable {state middle after : ParseState} {taken more : List Token}

theorem trans (h : Takes state taken middle) (hmore : Takes middle more after) :
    Takes state (taken ++ more) after := by
  induction hmore with
  | refl => simpa using h
  | shift _ hpos ih =>
    rw [← List.append_assoc]
    exact ih.shift hpos
  | record _ diagnostic ih => exact ih.record diagnostic

theorem tokens_eq (h : Takes state taken after) : state.tokens = taken ++ after.tokens := by
  induction h with
  | refl => rfl
  | shift _ hpos ih =>
    rw [ih, List.append_assoc, tokens_shift_of_remaining_pos hpos]
    rfl
  | record _ diagnostic ih => exact ih

theorem kinds_eq (h : Takes state taken after) :
    state.kinds = taken.map Token.kind ++ after.kinds := by
  rw [kinds, h.tokens_eq, List.map_append]
  rfl

theorem remaining_eq (h : Takes state taken after) :
    state.remaining = taken.length + after.remaining := by
  have hlength := congrArg List.length h.tokens_eq
  simp only [tokens, List.length_append, List.length_cons, List.length_map] at hlength
  simp only [remaining]
  omega

theorem remaining_le (h : Takes state taken after) : after.remaining ≤ state.remaining := by
  rw [h.remaining_eq]
  exact Nat.le_add_left _ _

theorem ended (h : Takes state taken after) (hended : state.Ended) : after.Ended := by
  induction h with
  | refl => exact hended
  | shift _ _ ih => exact ih.shift
  | record _ diagnostic ih => exact ih

/-- The token in view before a run is the first one it takes, or still in view if it takes none. -/
theorem current_eq (h : Takes state taken after) :
    state.current.kind = (taken.map Token.kind).headD after.current.kind := by
  have hkinds := h.kinds_eq
  rw [kinds_eq_cons, kinds_eq_cons] at hkinds
  cases taken with
  | nil => exact (List.cons.inj hkinds).1
  | cons token taken => exact (List.cons.inj hkinds).1

theorem diagnostics_sublist (h : Takes state taken after) :
    state.diagnostics.Sublist after.diagnostics := by
  induction h with
  | refl => exact .refl _
  | @shift _ after _ _ ih =>
    refine ih.trans ?_
    cases hupcoming : after.upcoming with
    | nil => simp [shift_of_upcoming_nil hupcoming]
    | cons lexeme upcoming => simp [shift_of_upcoming_cons hupcoming]
  | record _ diagnostic ih => exact ih.trans (List.sublist_append_left _ _)

theorem diagnostics_eq_nil (h : Takes state taken after) (hclean : after.diagnostics = []) :
    state.diagnostics = [] :=
  List.sublist_nil.1 (hclean ▸ h.diagnostics_sublist)

theorem reports_sublist (h : Takes state taken after) :
    state.reports.Sublist after.reports := by
  induction h with
  | refl => exact .refl _
  | shift _ _ ih => rwa [reports_shift]
  | @record _ after _ diagnostic ih =>
    refine ih.trans ?_
    exact (List.sublist_append_left _ _).append_right _

/-- A run that ends at the end of the text without diagnostics went through tokens without reports
only. -/
theorem reports_eq_nil (h : Takes state taken after) (hend : after.remaining = 0)
    (hclean : after.diagnostics = []) : state.reports = [] := by
  have hafter : after.reports = [] := by
    rw [reports, hclean, List.eq_nil_of_length_eq_zero hend]
    rfl
  exact List.sublist_nil.1 (hafter ▸ h.reports_sublist)

end Takes

/-- Shifting takes the token in view, unless it is the end of the text. -/
theorem exists_takes_shift (state : ParseState) : ∃ taken, Takes state taken state.shift := by
  by_cases hupcoming : state.upcoming = []
  · rw [shift_of_upcoming_nil hupcoming]
    exact ⟨[], .refl⟩
  · exact ⟨_, Takes.refl.shift (List.length_pos_iff.2 hupcoming)⟩

end ParseState

namespace Parser

/-! ## Parsers at a state -/

variable {Result Next : Type}

theorem bind_apply (first : Parser Result) (next : Result → Parser Next) (state : ParseState) :
    (first >>= next) state = next (first state).1 (first state).2 := rfl

theorem current_apply (state : ParseState) : current state = (state.current, state) := rfl

theorem sees_apply (kind : TokenKind) (state : ParseState) :
    sees kind state = (decide (state.current.kind = kind), state) := rfl

theorem require_of_eq {kind : TokenKind} {state : ParseState} (h : state.current.kind = kind)
    (problem : Problem) : require kind problem state = ((), state.shift) := by
  change (if state.current.kind = kind then modify ParseState.shift
    else report problem state.current.span : Parser Unit) state = _
  rw [if_pos h]
  rfl

theorem require_of_ne {kind : TokenKind} {state : ParseState} (h : state.current.kind ≠ kind)
    (problem : Problem) :
    require kind problem state = ((), state.record ⟨problem, state.current.span, .error⟩) := by
  change (if state.current.kind = kind then modify ParseState.shift
    else report problem state.current.span : Parser Unit) state = _
  rw [if_neg h]
  rfl

theorem expect_of_eq {kind : TokenKind} {state : ParseState} (h : state.current.kind = kind)
    (problem : Problem) : expect kind problem state = ((), state.shift) := by
  change (if state.current.kind = kind then pure ()
    else report problem state.current.span : Parser Unit) state.shift = _
  rw [if_pos h]
  rfl

theorem expect_of_ne {kind : TokenKind} {state : ParseState} (h : state.current.kind ≠ kind)
    (problem : Problem) :
    expect kind problem state = ((), state.shift.record ⟨problem, state.current.span, .error⟩) := by
  change (if state.current.kind = kind then pure ()
    else report problem state.current.span : Parser Unit) state.shift = _
  rw [if_neg h]
  rfl

end Parser

end Slang
