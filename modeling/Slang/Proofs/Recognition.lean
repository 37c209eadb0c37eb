import Slang.Proofs.StatementRuns

/-!
# The parser reads what the grammar spells

Where the tokens in view have the kinds of a phrase and the one behind them is as the grammar asks,
the parser without limits reads that phrase, takes exactly these tokens and reports nothing.
-/

namespace Slang

open Parser

namespace ParseState

/-- Tokens of the given kinds are in view, and shifting over them leads from one state to the
other. -/
inductive Passes : ParseState → List TokenKind → ParseState → Prop
  | nil (state : ParseState) : Passes state [] state
  | cons {state after : ParseState} {kind : TokenKind} {kinds : List TokenKind}
      (current : state.current.kind = kind) (rest : Passes state.shift kinds after) :
    Passes state (kind :: kinds) after

namespace Passes

variable {state after : ParseState} {kind : TokenKind} {kinds more : List TokenKind}

theorem of_cons (h : Passes state (kind :: kinds) after) :
    state.current.kind = kind ∧ Passes state.shift kinds after := by
  cases h with
  | cons current rest => exact ⟨current, rest⟩

theorem current_eq (h : Passes state kinds after) :
    state.current.kind = kinds.headD after.current.kind := by
  cases h with
  | nil => rfl
  | cons current rest => exact current

theorem of_append (h : Passes state (kinds ++ more) after) :
    ∃ middle, Passes state kinds middle ∧ Passes middle more after ∧
      middle.current.kind = more.headD after.current.kind := by
  induction kinds generalizing state with
  | nil => exact ⟨state, .nil state, h, h.current_eq⟩
  | cons kind kinds ih =>
    obtain ⟨hcurrent, hrest⟩ := h.of_cons
    obtain ⟨middle, hfirst, hsecond⟩ := ih hrest
    exact ⟨middle, .cons hcurrent hfirst, hsecond⟩

/-- Tokens up to one of a given kind, and that token. -/
theorem of_append_cons (h : Passes state (kinds ++ kind :: more) after) :
    ∃ middle, Passes state kinds middle ∧ middle.current.kind = kind ∧
      Passes middle.shift more after := by
  obtain ⟨middle, hfirst, hsecond, -⟩ := h.of_append
  exact ⟨middle, hfirst, hsecond.of_cons⟩

end Passes

theorem Passes.reports_eq {state after : ParseState} {kinds : List TokenKind}
    (h : state.Passes kinds after) : state.reports = after.reports := by
  induction h with
  | nil => rfl
  | cons _ _ ih => rw [← ih, reports_shift]

/-- All tokens in front of the end can be passed. -/
theorem exists_passes {state : ParseState} {kinds : List TokenKind}
    (h : state.kinds = kinds ++ [.eof]) :
    ∃ after, state.Passes kinds after ∧ after.current.kind = .eof := by
  induction kinds generalizing state with
  | nil =>
    rw [kinds_eq_cons] at h
    exact ⟨state, .nil state, (List.cons.inj h).1⟩
  | cons kind kinds ih =>
    have hpos : 0 < state.remaining := by
      have hlength := congrArg List.length h
      simp only [kinds_eq_cons, List.length_cons, List.length_map, List.length_append,
        List.length_nil] at hlength
      rw [remaining]
      omega
    rw [kinds_of_remaining_pos hpos] at h
    obtain ⟨after, hafter, heof⟩ := ih (List.cons.inj h).2
    exact ⟨after, .cons (List.cons.inj h).1 hafter, heof⟩

end ParseState

open ParseState

/-- The parser of a phrase leads from one state to the other with the tree of the phrase. -/
def Phrase.Reads (state after : ParseState) : Phrase → Prop
  | .expression minimum value => Unbounded.expression minimum state = some (value, after)
  | .operand kind value => Unbounded.operand kind state = some (value, after)
  | .extension kind left whole => ∀ span,
    Unbounded.extension kind left span state = some (whole, after)
  | .continuations minimum left whole =>
    Unbounded.continuations minimum left state = some (whole, after)
  | .arguments before parsed => Unbounded.arguments before state = some (parsed, after)
  | .statement mayDeclare parsed => Unbounded.statement mayDeclare state = some (parsed, after) ∧
    (mayDeclare = false → Unbounded.branch state = some (parsed, after))
  | .guarded condition inside => Unbounded.guarded state = some ((condition, inside), after)
  | .alternative rest => Unbounded.alternative state = some (rest, after)
  | .statements place before parsed =>
    Unbounded.statements place before state = some (parsed, after)
  | .body inside => Unbounded.body state = some (inside, after)
  | .labels before parsed => Unbounded.labels before state = some (parsed, after)
  | .arms before parsed => Unbounded.arms before state = some (parsed, after)

namespace Unbounded

variable {state : ParseState}

theorem branch_of_semicolon (h : state.current.kind = .mark .semicolon) :
    branch state = branch state.shift := by
  rw [branch, StmtRule.parse]
  change (skipSemicolons state).bind _ = (skipSemicolons state.shift).bind _
  rw [skipSemicolons, skipWhile_of_skip (decide_eq_true h)]

theorem branch_of_ne (hsemicolon : state.current.kind ≠ .mark .semicolon)
    (heof : state.current.kind ≠ .eof) : branch state = statement false state := by
  have hskip : skipSemicolons state = some ((), state) :=
    skipWhile_of_stop (decide_eq_false hsemicolon)
  rw [branch, StmtRule.parse, bind_of_eq hskip, lift_bind_apply, current_apply, if_neg heof]

theorem statement_of_semicolons {count : Nat} {after : ParseState}
    (h : state.Passes (List.replicate count (.mark .semicolon)) after) (mayDeclare : Bool) :
    statement mayDeclare state = statement mayDeclare after := by
  induction count generalizing state with
  | zero =>
    cases h
    rfl
  | succ count ih =>
    obtain ⟨hcurrent, hbehind⟩ := h.of_cons
    rw [statement_of_semicolon hcurrent, ih hbehind]

theorem statement_of_eof (h : state.current.kind = .eof) (mayDeclare : Bool) :
    statement mayDeclare state = some (.broken, state) := by
  rw [statement_of_ne_semicolon (by simp [h]), statementAt, StmtRule.parse]
  simp only [h]
  rfl

theorem statementAt_of_opens {token : Token} (h : opens token.kind = true) (mayDeclare : Bool) :
    statementAt mayDeclare token = (do return .expression (← terminated .expression)) := by
  rw [statementAt, StmtRule.parse]
  split <;> rename_i hkind <;> first | rfl | (rw [hkind] at h; cases h)

/-- An expression that is not broken, and the semicolon behind it. -/
theorem terminated_of_eq {value : Expr} {middle : ParseState}
    (hvalue : expression .lowest state = some (value, middle)) (hbroken : value.isBroken = false)
    (hend : middle.current.kind = .mark .semicolon) (statement : Terminated) :
    terminated statement state = some (value, middle.shift) := by
  rw [terminated, bind_of_eq hvalue, lift_bind_apply, terminate, hbroken, if_neg Bool.noConfusion,
    require_of_eq hend]
  rfl

theorem declaration_of_identifier {name : String}
    (h : state.shift.current.kind = .identifier name) :
    declaration state = (do
      if ← sees (.mark .semicolon) then
        modify ParseState.shift
        return .declare name none
      else
        require (.keyword .become) .declarationWithoutBecome
        return .declare name (some (← terminated .definition)) : Unbounded Stmt)
      state.shift.shift := by
  have hadvance : advance state.shift = (state.shift.current, state.shift.shift) := rfl
  rw [declaration, modify_bind_apply, lift_bind_apply, hadvance]
  simp only [h]

theorem element_of_statement {place : Place} {parsed : Stmt} {after : ParseState}
    (h : statement true state = some (parsed, after))
    (hdirect : place = .arm → parsed.isDeclaration = false) :
    element place state = some (parsed, after) := by
  cases place with
  | arm =>
    rw [element, armStatement, StmtRule.parse, lift_bind_apply, current_apply, bind_of_eq h,
      hdirect rfl]
    rfl
  | program => exact h
  | braces => exact h

theorem label_of_default {cases : List Expr} {isDefault : Bool}
    (h : state.current.kind = .keyword .defaultLabel)
    (hcolon : state.shift.current.kind = .mark .colon) :
    label ⟨cases, isDefault, false⟩ state = some (⟨cases, true, true⟩, state.shift.shift) := by
  rw [label, lift_bind_apply]
  refine (congrFun (if_pos h) state.shift).trans ?_
  change ((liftM (require (.mark .colon) _) : Unbounded Unit) >>= _) state.shift = _
  rw [lift_bind_apply, require_of_eq hcolon]
  rfl

theorem label_of_case {cases : List Expr} {isDefault defaultSeen : Bool} {value : Expr}
    {middle : ParseState} (h : state.current.kind = .keyword .caseLabel)
    (hvalue : expression .lowest state.shift = some (value, middle))
    (hcolon : middle.current.kind = .mark .colon) :
    label ⟨cases, isDefault, defaultSeen⟩ state =
      some (⟨cases ++ [value], isDefault, defaultSeen⟩, middle.shift) := by
  have hcase : state.current.kind ≠ .keyword .defaultLabel := by simp [h]
  rw [label, lift_bind_apply]
  refine (congrFun (if_neg hcase) state.shift).trans ?_
  rw [bind_of_eq hvalue, lift_bind_apply, require_of_eq hcolon]
  rfl

end Unbounded

theorem Parser.binding_of_identifier {name : String} {state : ParseState}
    (h : state.current.kind = .identifier name) : binding state = (name, state.shift) := by
  have hadvance : advance state = (state.current, state.shift) := rfl
  rw [binding, bind_apply, hadvance]
  simp only [h]
  rfl

namespace Spells

variable {kinds : List TokenKind} {next : TokenKind} {state after : ParseState}

theorem opens_current {minimum : Precedence} {value : Expr}
    (h : Spells (.expression minimum value) kinds next) (hpasses : state.Passes kinds after) :
    opens state.current.kind = true := by
  obtain ⟨kind, more, rfl, hkind⟩ := h.expression_first
  rwa [hpasses.of_cons.1]

theorem not_argumentsEnd {minimum : Precedence} {value : Expr}
    (h : Spells (.expression minimum value) kinds next) (hpasses : state.Passes kinds after) :
    ¬(state.current.kind = .mark .closeParen ∨ state.current.kind = .eof) := by
  have hopens := h.opens_current hpasses
  rintro (hkind | hkind) <;> rw [hkind] at hopens <;> cases hopens

theorem not_ends {mayDeclare : Bool} {parsed : Stmt}
    (h : Spells (.statement mayDeclare parsed) kinds next) (hpasses : state.Passes kinds after)
    (place : Place) : place.ends state.current.kind = false := by
  obtain ⟨kind, more, rfl, hkind, -⟩ := h.statement_first
  rw [hpasses.of_cons.1]
  refine eq_false_of_ne_true fun hends ↦ ?_
  rw [Place.endsArm_of_ends hends] at hkind
  cases hkind

end Spells

/-- A statement is read where its first token is no semicolon. -/
theorem Phrase.reads_statement {mayDeclare : Bool} {parsed : Stmt} {state after : ParseState}
    (hsemicolon : state.current.kind ≠ .mark .semicolon) (heof : state.current.kind ≠ .eof)
    (h : Unbounded.statementAt mayDeclare state.current state = some (parsed, after)) :
    (Phrase.statement mayDeclare parsed).Reads state after := by
  refine ⟨(Unbounded.statement_of_ne_semicolon hsemicolon mayDeclare).trans h, ?_⟩
  rintro rfl
  rw [Unbounded.branch_of_ne hsemicolon heof]
  exact (Unbounded.statement_of_ne_semicolon hsemicolon false).trans h

theorem Spells.reads {phrase : Phrase} {kinds : List TokenKind} {next : TokenKind}
    (h : Spells phrase kinds next) {state after : ParseState} (hpasses : state.Passes kinds after)
    (hnext : after.current.kind = next) : phrase.Reads state after := by
  induction h generalizing state after with
  | expression first operand rest ihoperand ihrest =>
    subst hnext
    obtain ⟨hcurrent, hbehind⟩ := hpasses.of_cons
    obtain ⟨middle, hfront, hback, hmiddle⟩ := hbehind.of_append
    rw [Phrase.Reads, Unbounded.expression_of_opens (hcurrent ▸ first), hcurrent,
      Unbounded.bind_of_eq (ihoperand hfront hmiddle)]
    exact ihrest hback rfl
  | number value next =>
    cases hpasses
    rw [Phrase.Reads, Unbounded.operand, Unbounded.ExprRule.parse]
    rfl
  | string contents next =>
    cases hpasses
    rw [Phrase.Reads, Unbounded.operand, Unbounded.ExprRule.parse]
    rfl
  | identifier name next =>
    cases hpasses
    rw [Phrase.Reads, Unbounded.operand, Unbounded.ExprRule.parse]
    rfl
  | signed op inside ih =>
    have hinside := ih hpasses hnext
    cases op
    all_goals
      rw [Phrase.Reads, UnaryOp.kind, Unbounded.operand, Unbounded.ExprRule.parse,
        Unbounded.bind_of_eq hinside]
      rfl
  | group inside ih =>
    obtain ⟨middle, hfront, hclose, hback⟩ := hpasses.of_append_cons
    cases hback
    rw [Phrase.Reads, Unbounded.operand, Unbounded.ExprRule.parse,
      Unbounded.bind_of_eq (ih hfront hclose), Unbounded.lift_bind_apply, require_of_eq hclose]
    rfl
  | call inside ih =>
    obtain ⟨middle, hfront, hclose, hback⟩ := hpasses.of_append_cons
    cases hback
    intro span
    rw [Unbounded.extension, Unbounded.ExprRule.parse, Unbounded.bind_of_eq (ih hfront hclose),
      Unbounded.lift_bind_apply, require_of_eq hclose]
    rfl
  | choice first second ihfirst ihsecond =>
    obtain ⟨hequals, hbehind⟩ := hpasses.of_cons
    obtain ⟨middle, hfront, hcomma, hbehind⟩ := hbehind.of_append_cons
    obtain ⟨horElse, hbehind⟩ := hbehind.of_cons
    obtain ⟨hequals', hback⟩ := hbehind.of_cons
    intro span
    rw [Unbounded.extension, Unbounded.ExprRule.parse, Unbounded.lift_bind_apply,
      require_of_eq hequals, Unbounded.bind_of_eq (ihfirst hfront hcomma),
      Unbounded.lift_bind_apply, require_of_eq hcomma, Unbounded.lift_bind_apply,
      require_of_eq horElse, Unbounded.lift_bind_apply, require_of_eq hequals',
      Unbounded.bind_of_eq (ihsecond hback hnext)]
    rfl
  | assign assignable inside ih =>
    intro span
    rw [Unbounded.extension, Unbounded.ExprRule.parse, if_pos assignable]
    exact Unbounded.bind_of_eq (ih hpasses hnext) _
  | binary spelled inside ih =>
    intro span
    rw [Unbounded.extension_of_ofSymbol? spelled, Unbounded.bind_of_eq (ih hpasses hnext)]
    rfl
  | operandEnd left stop =>
    cases hpasses
    exact Unbounded.continuations_of_stop (hnext ▸ stop) left
  | operator goes extension rest ihextension ihrest =>
    subst hnext
    obtain ⟨hcurrent, hbehind⟩ := hpasses.of_cons
    obtain ⟨middle, hfront, hback, hmiddle⟩ := hbehind.of_append
    rw [Phrase.Reads, Unbounded.continuations_of_continues (hcurrent ▸ goes), hcurrent,
      Unbounded.bind_of_eq (ihextension hfront hmiddle _)]
    exact ihrest hback rfl
  | argumentsEnd arguments stop =>
    cases hpasses
    exact Unbounded.arguments_of_stop (hnext ▸ stop) arguments
  | lastArgument before inside stop ih =>
    rw [Phrase.Reads, Unbounded.arguments_of_more (inside.not_argumentsEnd hpasses),
      Unbounded.bind_of_eq (ih hpasses hnext), Unbounded.lift_bind_apply, sees_apply,
      if_neg (by simpa [hnext] using stop)]
    rfl
  | argument inside rest ih ihrest =>
    obtain ⟨middle, hfront, hcomma, hback⟩ := hpasses.of_append_cons
    rw [Phrase.Reads, Unbounded.arguments_of_more (inside.not_argumentsEnd hfront),
      Unbounded.bind_of_eq (ih hfront hcomma), Unbounded.lift_bind_apply, sees_apply,
      if_pos (decide_eq_true hcomma), Unbounded.modify_bind_apply]
    exact ihrest hback hnext
  | semicolon behind ih =>
    obtain ⟨hcurrent, hbehind⟩ := hpasses.of_cons
    obtain ⟨hstatement, hbranch⟩ := ih hbehind hnext
    exact ⟨(Unbounded.statement_of_semicolon hcurrent _).trans hstatement, fun hmay ↦
      (Unbounded.branch_of_semicolon hcurrent).trans (hbranch hmay)⟩
  | evaluation mayDeclare next inside ih =>
    obtain ⟨middle, hfront, hend, hback⟩ := hpasses.of_append_cons
    cases hback
    have hopens := inside.opens_current hfront
    refine Phrase.reads_statement ?_ ?_ ?_
    · exact fun hkind ↦ by rw [hkind] at hopens; cases hopens
    · exact fun hkind ↦ by rw [hkind] at hopens; cases hopens
    rw [Unbounded.statementAt_of_opens hopens, Unbounded.bind_of_eq
      (Unbounded.terminated_of_eq (ih hfront hend) inside.expression_not_broken hend _)]
    rfl
  | declaration name next =>
    obtain ⟨hdeclare, hbehind⟩ := hpasses.of_cons
    obtain ⟨hname, hbehind⟩ := hbehind.of_cons
    obtain ⟨hend, hback⟩ := hbehind.of_cons
    cases hback
    refine Phrase.reads_statement (by simp [hdeclare]) (by simp [hdeclare]) ?_
    rw [Unbounded.statementAt, Unbounded.StmtRule.parse]
    simp only [hdeclare, if_true]
    rw [Unbounded.declaration_of_identifier hname, Unbounded.lift_bind_apply, sees_apply,
      if_pos (decide_eq_true hend)]
    rfl
  | definition name next inside ih =>
    obtain ⟨hdeclare, hbehind⟩ := hpasses.of_cons
    obtain ⟨hname, hbehind⟩ := hbehind.of_cons
    obtain ⟨hbecome, hbehind⟩ := hbehind.of_cons
    obtain ⟨middle, hfront, hend, hback⟩ := hbehind.of_append_cons
    cases hback
    refine Phrase.reads_statement (by simp [hdeclare]) (by simp [hdeclare]) ?_
    rw [Unbounded.statementAt, Unbounded.StmtRule.parse]
    simp only [hdeclare, if_true]
    rw [Unbounded.declaration_of_identifier hname, Unbounded.lift_bind_apply, sees_apply,
      if_neg (by simp [hbecome]), Unbounded.lift_bind_apply, require_of_eq hbecome,
      Unbounded.bind_of_eq
        (Unbounded.terminated_of_eq (ih hfront hend) inside.expression_not_broken hend _)]
    rfl
  | print mayDeclare next inside ih =>
    obtain ⟨hprint, hbehind⟩ := hpasses.of_cons
    obtain ⟨middle, hfront, hend, hback⟩ := hbehind.of_append_cons
    cases hback
    refine Phrase.reads_statement (by simp [hprint]) (by simp [hprint]) ?_
    rw [Unbounded.statementAt, Unbounded.StmtRule.parse]
    simp only [hprint]
    rw [Unbounded.modify_bind_apply, Unbounded.bind_of_eq
      (Unbounded.terminated_of_eq (ih hfront hend) inside.expression_not_broken hend _)]
    rfl
  | throw mayDeclare next inside ih =>
    obtain ⟨hthrow, hbehind⟩ := hpasses.of_cons
    obtain ⟨middle, hfront, hend, hback⟩ := hbehind.of_append_cons
    cases hback
    refine Phrase.reads_statement (by simp [hthrow]) (by simp [hthrow]) ?_
    rw [Unbounded.statementAt, Unbounded.StmtRule.parse]
    simp only [hthrow]
    rw [Unbounded.modify_bind_apply, Unbounded.bind_of_eq
      (Unbounded.terminated_of_eq (ih hfront hend) inside.expression_not_broken hend _)]
    rfl
  | leave mayDeclare next =>
    obtain ⟨hleave, hbehind⟩ := hpasses.of_cons
    obtain ⟨hend, hback⟩ := hbehind.of_cons
    cases hback
    refine Phrase.reads_statement (by simp [hleave]) (by simp [hleave]) ?_
    rw [Unbounded.statementAt, Unbounded.StmtRule.parse]
    simp only [hleave]
    rw [Unbounded.modify_bind_apply, Unbounded.lift_bind_apply, require_of_eq hend]
    rfl
  | block mayDeclare inside ih =>
    obtain ⟨more, rfl⟩ := inside.body_first
    have hopen := hpasses.of_cons.1
    refine Phrase.reads_statement (by simp [hopen]) (by simp [hopen]) ?_
    rw [Unbounded.statementAt, Unbounded.StmtRule.parse]
    simp only [hopen]
    rw [Unbounded.bind_of_eq (ih hpasses hnext)]
    rfl
  | when mayDeclare first others ihfirst ihothers =>
    subst hnext
    obtain ⟨hwhen, hbehind⟩ := hpasses.of_cons
    obtain ⟨middle, hfront, hback, hmiddle⟩ := hbehind.of_append
    refine Phrase.reads_statement (by simp [hwhen]) (by simp [hwhen]) ?_
    rw [Unbounded.statementAt, Unbounded.StmtRule.parse]
    simp only [hwhen]
    rw [Unbounded.modify_bind_apply, Unbounded.bind_of_eq (ihfirst hfront hmiddle),
      Unbounded.bind_of_eq (ihothers hback rfl)]
    rfl
  | loop mayDeclare inside ih =>
    obtain ⟨hloop, hbehind⟩ := hpasses.of_cons
    refine Phrase.reads_statement (by simp [hloop]) (by simp [hloop]) ?_
    rw [Unbounded.statementAt, Unbounded.StmtRule.parse]
    simp only [hloop]
    rw [Unbounded.modify_bind_apply, Unbounded.bind_of_eq (ih hbehind hnext)]
    rfl
  | switch mayDeclare next front inside ihfront ihinside =>
    obtain ⟨hswitch, hbehind⟩ := hpasses.of_cons
    obtain ⟨middle, hfront, hopen, hbehind⟩ := hbehind.of_append_cons
    obtain ⟨last, harms, hclose, hback⟩ := hbehind.of_append_cons
    cases hback
    refine Phrase.reads_statement (by simp [hswitch]) (by simp [hswitch]) ?_
    rw [Unbounded.statementAt, Unbounded.StmtRule.parse]
    simp only [hswitch]
    rw [Unbounded.modify_bind_apply, Unbounded.StmtRule.parse,
      Unbounded.bind_of_eq (ihfront hfront hopen), Unbounded.lift_bind_apply, require_of_eq hopen,
      Unbounded.bind_of_eq (ihinside harms hclose), Unbounded.lift_bind_apply,
      require_of_eq hclose]
    rfl
  | attempt mayDeclare binding inside rescue ihinside ihrescue =>
    obtain ⟨hattempt, hbehind⟩ := hpasses.of_cons
    obtain ⟨middle, hfront, hrescue, hbehind⟩ := hbehind.of_append_cons
    obtain ⟨hopen, hbehind⟩ := hbehind.of_cons
    obtain ⟨hname, hbehind⟩ := hbehind.of_cons
    obtain ⟨hclose, hback⟩ := hbehind.of_cons
    refine Phrase.reads_statement (by simp [hattempt]) (by simp [hattempt]) ?_
    rw [Unbounded.statementAt, Unbounded.StmtRule.parse]
    simp only [hattempt]
    rw [Unbounded.modify_bind_apply, Unbounded.StmtRule.parse,
      Unbounded.bind_of_eq (ihinside hfront hrescue), Unbounded.lift_bind_apply,
      expect_of_eq hrescue, Unbounded.lift_bind_apply, require_of_eq hopen,
      Unbounded.lift_bind_apply, binding_of_identifier hname, Unbounded.lift_bind_apply,
      require_of_eq hclose, Unbounded.bind_of_eq (ihrescue hback hnext)]
    rfl
  | guarded test branch ihtest ihbranch =>
    obtain ⟨hopen, hbehind⟩ := hpasses.of_cons
    obtain ⟨middle, hfront, hclose, hback⟩ := hbehind.of_append_cons
    rw [Phrase.Reads, Unbounded.guarded, Unbounded.StmtRule.parse, Unbounded.lift_bind_apply,
      require_of_eq hopen, Unbounded.bind_of_eq (ihtest hfront hclose),
      Unbounded.lift_bind_apply, require_of_eq hclose,
      Unbounded.bind_of_eq ((ihbranch hback hnext).2 rfl)]
    rfl
  | none stop =>
    cases hpasses
    exact Unbounded.alternative_of_stop (hnext ▸ stop)
  | otherwise branch ih =>
    obtain ⟨hother, hbehind⟩ := hpasses.of_cons
    rw [Phrase.Reads, Unbounded.alternative_of_otherwise hother,
      Unbounded.bind_of_eq ((ih hbehind hnext).2 rfl)]
    rfl
  | elseWhen first others ihfirst ihothers =>
    subst hnext
    obtain ⟨helse, hbehind⟩ := hpasses.of_cons
    obtain ⟨middle, hfront, hback, hmiddle⟩ := hbehind.of_append
    rw [Phrase.Reads, Unbounded.alternative_of_elseWhen helse,
      Unbounded.bind_of_eq (ihfirst hfront hmiddle)]
    exact Unbounded.bind_of_eq (ihothers hback rfl) _
  | statementsEnd statements stop =>
    cases hpasses
    exact Unbounded.statements_of_ends (hnext ▸ stop) statements
  | semicolons place statements count =>
    have hcurrent := hpasses.of_cons.1
    have hends : place.ends state.current.kind = false := by
      rw [hcurrent]
      cases place <;> rfl
    have hbroken : Unbounded.statement true state = some (.broken, after) :=
      (Unbounded.statement_of_semicolons hpasses true).trans
        (Unbounded.statement_of_eof hnext true)
    rw [Phrase.Reads, Unbounded.statements_of_more hends,
      Unbounded.bind_of_eq (Unbounded.element_of_statement hbroken fun _ ↦ rfl)]
    exact Unbounded.statements_of_ends (hnext ▸ place.ends_eof) statements
  | statements first direct others ihfirst ihothers =>
    subst hnext
    obtain ⟨middle, hfront, hback, hmiddle⟩ := hpasses.of_append
    obtain ⟨hstatement, -⟩ := ihfirst hfront hmiddle
    rw [Phrase.Reads, Unbounded.statements_of_more (first.not_ends hfront _),
      Unbounded.bind_of_eq (Unbounded.element_of_statement hstatement direct),
      first.statement_not_broken]
    exact ihothers hback rfl
  | body next inside ih =>
    obtain ⟨hopen, hbehind⟩ := hpasses.of_cons
    obtain ⟨middle, hfront, hclose, hback⟩ := hbehind.of_append_cons
    cases hback
    rw [Phrase.Reads, Unbounded.body, Unbounded.StmtRule.parse, Unbounded.lift_bind_apply,
      expect_of_eq hopen, Unbounded.bind_of_eq (ih hfront hclose), Unbounded.lift_bind_apply,
      require_of_eq hclose]
    rfl
  | labelsEnd labels stop =>
    cases hpasses
    exact Unbounded.labels_of_stop (hnext ▸ stop) labels
  | caseLabel inside others ihinside ihothers =>
    obtain ⟨hcase, hbehind⟩ := hpasses.of_cons
    obtain ⟨middle, hfront, hcolon, hback⟩ := hbehind.of_append_cons
    rw [Phrase.Reads, Unbounded.labels_of_label (hcase ▸ rfl), Unbounded.bind_of_eq
      (Unbounded.label_of_case hcase (ihinside hfront hcolon) hcolon)]
    exact ihothers hback hnext
  | defaultLabel others ih =>
    obtain ⟨hdefault, hbehind⟩ := hpasses.of_cons
    obtain ⟨hcolon, hback⟩ := hbehind.of_cons
    rw [Phrase.Reads, Unbounded.labels_of_label (hdefault ▸ rfl),
      Unbounded.bind_of_eq (Unbounded.label_of_default hdefault hcolon)]
    exact ih hback hnext
  | armsEnd arms stop =>
    cases hpasses
    exact Unbounded.arms_of_stop (hnext ▸ stop) arms
  | arms first labels behind rest ihlabels ihbehind ihrest =>
    subst hnext
    rw [← List.cons_append] at hpasses
    obtain ⟨middle, hfront, hbehind, hmiddle⟩ := hpasses.of_append
    obtain ⟨last, hstatements, hback, hlast⟩ := hbehind.of_append
    rw [Phrase.Reads, Unbounded.arms_of_label (hfront.of_cons.1 ▸ first),
      Unbounded.bind_of_eq (ihlabels hfront hmiddle),
      Unbounded.bind_of_eq (ihbehind hstatements hlast)]
    exact ihrest hback rfl

end Slang
