import Slang.Proofs.ExpressionRuns
import Slang.Proofs.WellFormed

/-!
# Runs of the statement parser

The statement parsers end without limits as with them, and what they read without reports is spelled
by the tokens they took. A statement takes a token wherever there is one to take: no keyword that
begins a statement is left in view, and an expression that cannot begin skips the token it stumbles
over, which is none of those at which skipping stops.
-/

namespace Slang

namespace Parser

open ParseState

variable {Result : Type} {limit depth : Nat}

/-! ## Single tokens -/

/-- The token in view before a run is the first one taken, or still in view if none is taken. -/
theorem RunsAt.and_current {state : ParseState} {least : Nat} {unbounded : Unbounded Result}
    {parser : Parser Result} {post : Post Result} (h : RunsAt state least unbounded parser post) :
    RunsAt state least unbounded parser fun result kinds next ↦
      post result kinds next ∧ state.current.kind = kinds.headD next ∧ least ≤ kinds.length := by
  obtain ⟨hends, taken, hleast, htakes, hpost⟩ := h
  refine ⟨hends, taken, hleast, htakes, fun hclean ↦ ⟨hpost hclean, htakes.current_eq, ?_⟩⟩
  rwa [List.length_map]

/-- A branch on the token in view. -/
theorem RunsAt.sees {state : ParseState} {least : Nat} {kind : TokenKind}
    {unbounded unbounded' : Unbounded Result} {parser parser' : Parser Result} {post : Post Result}
    (hyes : state.current.kind = kind → RunsAt state least unbounded parser post)
    (hno : state.current.kind ≠ kind → RunsAt state least unbounded' parser' post) :
    RunsAt state least (do if ← sees kind then unbounded else unbounded')
      (do if ← sees kind then parser else parser') post := by
  by_cases hkind : state.current.kind = kind
  · refine (hyes hkind).congr ?_ ?_
    · rw [Unbounded.lift_bind_apply, sees_apply, if_pos (decide_eq_true hkind)]
    · rw [bind_apply, sees_apply, if_pos (decide_eq_true hkind)]
  · refine (hno hkind).congr ?_ ?_
    · rw [Unbounded.lift_bind_apply, sees_apply, if_neg (by simpa using hkind)]
    · rw [bind_apply, sees_apply, if_neg (by simpa using hkind)]

theorem advance_runs (limit : Nat) :
    Runs limit (liftM advance) advance fun token kinds _ ↦
      token.kind ≠ .eof → kinds = [token.kind] := by
  intro state hended _
  refine ⟨rfl, ?_⟩
  change ∃ taken, 0 ≤ taken.length ∧ state.Takes taken state.shift ∧ _
  by_cases hcurrent : state.current.kind = .eof
  · obtain ⟨taken, htakes⟩ := state.exists_takes_shift
    exact ⟨taken, Nat.zero_le _, htakes, fun _ hne ↦ absurd hcurrent hne⟩
  · exact ⟨_, Nat.zero_le _, Takes.refl.shift (hended.remaining_pos hcurrent), fun _ _ ↦ rfl⟩

theorem expect_runs (limit : Nat) {kind : TokenKind} (hkind : kind ≠ .eof) (problem : Problem) :
    Runs limit (liftM (expect kind problem)) (expect kind problem)
      fun _ kinds _ ↦ kinds = [kind] := by
  intro state hended _
  refine ⟨rfl, ?_⟩
  by_cases hcurrent : state.current.kind = kind
  · rw [expect_of_eq hcurrent]
    have hpos := hended.remaining_pos (hcurrent ▸ hkind)
    exact ⟨_, Nat.zero_le _, Takes.refl.shift hpos, fun _ ↦ by simp [hcurrent]⟩
  · rw [expect_of_ne hcurrent]
    obtain ⟨taken, htakes⟩ := state.exists_takes_shift
    exact ⟨taken, Nat.zero_le _, htakes.record _, fun hclean ↦
      absurd hclean (diagnostics_record_ne_nil _ _)⟩

theorem optional_runs (limit : Nat) (kind : TokenKind) :
    Runs limit (liftM (optional kind)) (optional kind) fun _ _ _ ↦ True := by
  intro state _ _
  refine ⟨rfl, ?_⟩
  by_cases hcurrent : state.current.kind = kind
  · have hrun : optional kind state = ((), state.shift) := by
      rw [optional, bind_apply, sees_apply, if_pos (decide_eq_true hcurrent)]
      rfl
    rw [hrun]
    obtain ⟨taken, htakes⟩ := state.exists_takes_shift
    exact ⟨taken, Nat.zero_le _, htakes, fun _ ↦ trivial⟩
  · have hrun : optional kind state = ((), state) := by
      rw [optional, bind_apply, sees_apply, if_neg (by simpa using hcurrent)]
      rfl
    rw [hrun]
    exact ⟨[], Nat.zero_le _, .refl, fun _ ↦ trivial⟩

theorem skipWhile_of_stop {skip : TokenKind → Bool} {state : ParseState}
    (h : skip state.current.kind = false) : state.skipWhile skip = state := by
  unfold skipWhile
  cases state.upcoming with
  | nil => rfl
  | cons lexeme upcoming => rw [skipWithin, if_neg (Bool.eq_false_iff.1 h)]

/-- Passing over semicolons, and then going on with a token that is none. -/
theorem skipSemicolons_bind {state : ParseState} (hended : state.Ended) {least : Nat}
    {unbounded : Unbounded Result} {parser : Parser Result} {post : Post Result}
    (hnext : ∀ after, after.Ended → after.remaining ≤ state.remaining →
      after.current.kind ≠ .mark .semicolon → RunsAt after least unbounded parser post) :
    RunsAt state (if state.current.kind = .mark .semicolon then 1 else least)
      (do Unbounded.skipSemicolons; unbounded) (do skipSemicolons; parser)
      fun result kinds next ↦ ∃ front back, kinds = front ++ back ∧
        (∀ kind ∈ front, kind = .mark .semicolon) ∧ post result back next := by
  obtain ⟨hends, ⟨taken, htakes, hskipped⟩, hlast⟩ :=
    skipWhile_runs (· = .mark .semicolon) rfl hended
  have hlast : (state.skipWhile (· = .mark .semicolon)).current.kind ≠ .mark .semicolon :=
    of_decide_eq_false hlast
  obtain ⟨hends', taken', hleast, htakes', hpost⟩ :=
    hnext _ (htakes.ended hended) htakes.remaining_le hlast
  refine ⟨?_, taken ++ taken', ?_, htakes.trans htakes', fun hclean ↦ ?_⟩
  · rw [Unbounded.skipSemicolons, Unbounded.bind_of_eq hends]
    exact hends'
  · rw [List.length_append]
    split
    · rename_i hcurrent
      cases taken with
      | nil => exact absurd (htakes.current_eq.symm.trans hcurrent) hlast
      | cons token taken => exact Nat.le_trans (Nat.succ_pos _) (Nat.le_add_right _ _)
    · exact Nat.le_trans hleast (Nat.le_add_left _ _)
  · refine ⟨_, _, List.map_append, ?_, hpost hclean⟩
    simpa using hskipped

/-! ## Ends of statements -/

theorem terminate_runs (limit : Nat) (value : Expr) (statement : Terminated) :
    Runs limit (liftM (terminate value statement)) (terminate value statement)
      fun _ kinds _ ↦ value.isBroken = false → kinds = [.mark .semicolon] := by
  unfold terminate
  cases value.isBroken with
  | true => exact (optional_runs limit _).mono fun _ _ _ _ ↦ Bool.noConfusion
  | false => exact (require_runs limit (by decide) _).mono fun _ _ _ h _ ↦ h

/-- An expression and a semicolon, where the expression takes a token unless it begins with one at
which reading goes on after a problem. -/
theorem terminated_runsAt (statement : Terminated) {state : ParseState} (hended : state.Ended)
    (hdepth : state.remaining < depth) :
    RunsAt state (if isRestart state.current.kind then 0 else 1) (Unbounded.terminated statement)
      (terminated depth statement) fun value kinds _ ↦ ∃ front,
        kinds = front ++ [.mark .semicolon] ∧
          Spells (.expression .lowest value) front (.mark .semicolon) := by
  have hvalue := expressionWithin_runsAt depth .lowest hended hdepth
  refine (hvalue.bind hended ?_ fun value ↦ (terminate_runs depth value statement).bind fun _ ↦
    .pure depth value).mono (Nat.le_refl _) ?_
  · exact Nat.lt_of_lt_of_le hdepth (Nat.le_add_right _ _)
  · rintro _ _ next ⟨value, front, _, rfl, hfront, _, _, _, rfl, hend, rfl, rfl⟩
    obtain rfl := hend hfront.expression_not_broken
    exact ⟨front, rfl, hfront⟩

theorem terminated_runs (statement : Terminated) (hdepth : limit ≤ depth) :
    Runs limit (Unbounded.terminated statement) (terminated depth statement)
      fun value kinds _ ↦ ∃ front, kinds = front ++ [.mark .semicolon] ∧
        Spells (.expression .lowest value) front (.mark .semicolon) :=
  fun _ hended hlimit ↦ (terminated_runsAt statement hended
    (Nat.lt_of_lt_of_le hlimit hdepth)).mono (Nat.zero_le _) fun _ _ _ h ↦ h

theorem declaration_runsAt {state : ParseState} (hended : state.Ended)
    (hdepth : state.remaining < depth) (hcurrent : state.current.kind = .keyword .declare) :
    RunsAt state 1 Unbounded.declaration (declaration depth)
      fun parsed kinds next ↦ Spells (.statement true parsed) kinds next := by
  have hshift := RunsAt.shift hended (hcurrent ▸ by decide)
  refine (hshift.bind hended (Nat.lt_of_lt_of_le hdepth (Nat.le_add_right _ _)) fun _ ↦
    (advance_runs depth).bind fun token ↦
      (?_ : Runs depth _ _ fun parsed kinds next ↦ ∃ name, token.kind = .identifier name ∧
        Spells (.statement true parsed) (.keyword .declare :: .identifier name :: kinds) next)).mono
    (Nat.le_refl 1) ?_
  · intro state hended hlimit
    cases hname : token.kind with
    | identifier name =>
      refine .sees (fun hcurrent ↦ ?_) fun _ ↦ ?_
      · have hshift := RunsAt.shift hended (hcurrent ▸ by decide)
        refine RunsAt.mono (hshift.bindAt (.pure _ _)) (Nat.zero_le _) ?_
        rintro _ _ next ⟨_, _, rfl, rfl, rfl, rfl⟩
        rw [hcurrent]
        exact ⟨name, rfl, .declaration name next⟩
      · refine ((require_runs depth (by decide) _).bind fun _ ↦
          (terminated_runs .definition (Nat.le_refl depth)).bind fun value ↦ .pure depth _).mono ?_
          state hended hlimit
        rintro _ _ next ⟨_, _, _, rfl, rfl, value, _, _, rfl, ⟨kinds, rfl, hkinds⟩, rfl, rfl⟩
        rw [List.append_nil]
        exact ⟨name, rfl, .definition name next hkinds⟩
    | _ => exact (giveUp_runsAt _ _ _ hended _).mono (Nat.zero_le _) fun _ _ _ h ↦ h
  · rintro parsed _ next ⟨_, _, _, rfl, rfl, token, _, _, rfl, htoken, name, hname, hparsed⟩
    rw [htoken (by simp [hname]), hname, hcurrent]
    exact hparsed

/-! ## Statements inside others -/

/-- What a statement is spelled with. At the end of the text there is none behind semicolons, which
is not reported. -/
def StatementPost (mayDeclare : Bool) : Post Stmt := fun parsed kinds next ↦
  Spells (.statement mayDeclare parsed) kinds next ∨
    parsed = .broken ∧ next = .eof ∧ ∀ kind ∈ kinds, kind = .mark .semicolon

/-- A parser of statements that runs well, and takes a token unless the text has ended. -/
def StatementRuns (limit : Nat) (statement : Bool → Parser Stmt) : Prop :=
  ∀ mayDeclare state, state.Ended → state.remaining < limit →
    RunsAt state (if state.current.kind = .eof then 0 else 1) (Unbounded.statement mayDeclare)
      (statement mayDeclare) (StatementPost mayDeclare)

theorem StatementRuns.runs {statement : Bool → Parser Stmt}
    (h : StatementRuns limit statement) (mayDeclare : Bool) :
    Runs limit (Unbounded.statement mayDeclare) (statement mayDeclare) (StatementPost mayDeclare) :=
  fun state hended hlimit ↦
    (h mayDeclare state hended hlimit).mono (Nat.zero_le _) fun _ _ _ hpost ↦ hpost

theorem alternative_of_stop {state : ParseState} (h : isAlternative state.current.kind = false)
    (statement : Bool → Parser Stmt) (depth links : Nat) :
    alternative statement depth (links + 1) state = (.none, state) := by
  rw [alternative, bind_apply, current_apply]
  generalize state.current.kind = kind at h
  dsimp only
  split
  · cases h
  · cases h
  · rfl

section Inside

variable {statement : Bool → Parser Stmt} (hstatement : StatementRuns limit statement)
include hstatement

/-- The statement behind a condition, where one follows. -/
theorem branch_runs :
    Runs limit Unbounded.branch (branch statement)
      fun parsed kinds next ↦ Spells (.statement false parsed) kinds next := by
  intro state hended hlimit
  rw [Unbounded.branch, Unbounded.StmtRule.parse]
  refine (skipSemicolons_bind hended fun after hafter hle hsemicolon ↦
    (?_ : RunsAt after 0 _ _ fun parsed kinds next ↦
      Spells (.statement false parsed) kinds next)).mono (Nat.zero_le _) ?_
  · have hlimit' := Nat.lt_of_le_of_lt hle hlimit
    by_cases heof : after.current.kind = .eof
    · have hreport : RunsAt after 0 (liftM (report .missingStatement after.current.span))
        (report .missingStatement after.current.span) fun _ _ _ ↦ False := .report _ _ _
      refine ((hreport.bind hafter hlimit' fun _ ↦ hstatement.runs false).mono
        (Nat.zero_le _) ?_).congr ?_ ?_
      · rintro _ _ next ⟨_, _, _, -, hfalse, -⟩
        exact hfalse.elim
      · rw [Unbounded.lift_bind_apply, current_apply, if_pos heof]
      · rw [bind_apply, current_apply, if_pos heof]
    · have hrun := (hstatement false after hafter hlimit').and_current
      rw [if_neg heof] at hrun
      refine (hrun.mono (Nat.zero_le _) ?_).congr ?_ ?_
      · rintro parsed kinds next ⟨hspells | ⟨-, -, hkinds⟩, hcurrent, hleast⟩
        · exact hspells
        · cases kinds with
          | nil => cases hleast
          | cons kind kinds => exact absurd (hcurrent.trans (hkinds kind (by simp))) hsemicolon
      · rw [Unbounded.lift_bind_apply, current_apply, if_neg heof]
      · rw [bind_apply, current_apply, if_neg heof]
  · rintro parsed _ next ⟨front, back, rfl, hfront, hback⟩
    exact hback.semicolons_append hfront

theorem guarded_runs (hdepth : limit ≤ depth) :
    Runs limit Unbounded.guarded (guarded statement depth)
      fun parsed kinds next ↦ Spells (.guarded parsed.1 parsed.2) kinds next := by
  rw [Unbounded.guarded, Unbounded.StmtRule.parse]
  refine ((require_runs limit (by decide) _).bind fun _ ↦
    ((expressionWithin_runs depth .lowest).lower hdepth).bind fun condition ↦
    (require_runs limit (by decide) _).bind fun _ ↦ (branch_runs hstatement).bind fun body ↦
    .pure limit _).mono ?_
  rintro _ _ next ⟨_, _, _, rfl, rfl, condition, kinds, _, rfl, hcondition, _, _, _, rfl, rfl, body,
    more, _, rfl, hbody, rfl, rfl⟩
  rw [List.append_nil]
  exact .guarded hcondition hbody

theorem alternative_runs (hdepth : limit ≤ depth) {tokens links : Nat} (htokens : tokens ≤ limit)
    (hlinks : tokens ≤ links) :
    Runs tokens Unbounded.alternative (alternative statement depth links)
      fun rest kinds next ↦ Spells (.alternative rest) kinds next := by
  induction links generalizing tokens with
  | zero => exact fun _ _ hlimit ↦ absurd (Nat.lt_of_lt_of_le hlimit hlinks) (Nat.not_lt_zero _)
  | succ links ih =>
    intro state hended hlimit
    have hlimit' : state.remaining < tokens - 1 + 1 := by omega
    have hguarded := (guarded_runs hstatement hdepth).lower (by omega : tokens - 1 ≤ limit)
    have hbranch := (branch_runs hstatement).lower (by omega : tokens - 1 ≤ limit)
    by_cases helse : state.current.kind = .keyword .elseWhen
    · have hshift := RunsAt.shift hended (helse ▸ by decide)
      refine ((hshift.bind hended hlimit' fun _ ↦ hguarded.bind fun parsed ↦
        (ih (by omega) (by omega)).bind fun rest ↦
        .pure _ (.elseWhen parsed.1 parsed.2 rest)).mono (Nat.zero_le _) ?_).congr ?_ ?_
      · rintro _ _ next ⟨_, _, _, rfl, rfl, parsed, kinds, _, rfl, hparsed, rest, more, _, rfl,
          hrest, rfl, rfl⟩
        rw [List.append_nil] at hparsed ⊢
        rw [helse, List.singleton_append]
        exact .elseWhen hparsed hrest
      · exact Unbounded.alternative_of_elseWhen helse
      · rw [alternative, bind_apply, current_apply, helse]
    by_cases hother : state.current.kind = .keyword .otherwise
    · have hshift := RunsAt.shift hended (hother ▸ by decide)
      refine ((hshift.bind hended hlimit' fun _ ↦ hbranch.bind fun body ↦
        .pure _ (.otherwise body)).mono (Nat.zero_le _) ?_).congr ?_ ?_
      · rintro _ _ next ⟨_, _, _, rfl, rfl, body, kinds, _, rfl, hbody, rfl, rfl⟩
        rw [hother, List.append_nil]
        exact .otherwise hbody
      · exact Unbounded.alternative_of_otherwise hother
      · rw [alternative, bind_apply, current_apply, hother]
    have hstop : isAlternative state.current.kind = false := by
      unfold isAlternative
      split <;> first | contradiction | rfl
    have hparser := alternative_of_stop hstop statement depth links
    refine ⟨?_, [], Nat.le_refl 0, ?_, ?_⟩ <;> rw [hparser]
    · exact Unbounded.alternative_of_stop hstop
    · exact .refl
    · exact fun _ ↦ .none hstop

/-! ## Statement lists -/

/-- What an element of a statement list is spelled with. -/
def ElementPost (place : Place) : Post Stmt := fun parsed kinds next ↦
  (Spells (.statement true parsed) kinds next ∧ (place = .arm → parsed.isDeclaration = false)) ∨
    parsed = .broken ∧ next = .eof ∧ ∀ kind ∈ kinds, kind = .mark .semicolon

/-- A parser of elements of a statement list that runs well, and takes a token unless the text has
ended. -/
def ElementRuns (limit : Nat) (place : Place) (element : Parser Stmt) : Prop :=
  ∀ state, state.Ended → state.remaining < limit →
    RunsAt state (if state.current.kind = .eof then 0 else 1) (Unbounded.element place) element
      (ElementPost place)

theorem statement_elementRuns {place : Place} (hplace : place ≠ .arm) :
    ElementRuns limit place (statement true) := by
  intro state hended hlimit
  have helement : Unbounded.element place = Unbounded.statement true := by
    cases place <;> first | rfl | contradiction
  rw [helement]
  refine (hstatement true state hended hlimit).mono (Nat.le_refl _) ?_
  rintro parsed kinds next (hspells | hsilent)
  · exact .inl ⟨hspells, fun harm ↦ absurd harm hplace⟩
  · exact .inr hsilent

theorem armStatement_elementRuns : ElementRuns limit .arm (armStatement statement) := by
  intro state hended hlimit
  have hcheck (parsed : Stmt) : Runs limit
      (do
        if parsed.isDeclaration then report .declarationInArm state.current.span else pure ()
        return parsed)
      (do
        if parsed.isDeclaration then report .declarationInArm state.current.span else pure ()
        return parsed)
      fun outcome kinds _ ↦ outcome = parsed ∧ kinds = [] ∧ parsed.isDeclaration = false := by
    cases parsed.isDeclaration with
    | true =>
      refine Runs.mono (Runs.bind (fun _ _ _ ↦ .report _ _ fun _ _ _ ↦ False) fun _ ↦
        .pure limit parsed) ?_
      rintro _ _ next ⟨_, _, _, -, hfalse, -⟩
      exact hfalse.elim
    | false => exact (Runs.pure limit parsed).mono fun _ _ _ h ↦ ⟨h.1, h.2, rfl⟩
  have hrun := (hstatement true state hended hlimit).bind hended
    (Nat.lt_of_lt_of_le hlimit (Nat.le_add_right _ _)) hcheck
  refine (hrun.mono (Nat.le_refl _) ?_).congr ?_ rfl
  · rintro _ _ next ⟨parsed, kinds, _, rfl, hspells | hsilent, rfl, rfl, hdirect⟩
    · rw [List.append_nil]
      exact .inl ⟨hspells, fun _ ↦ hdirect⟩
    · rw [List.append_nil]
      exact .inr hsilent
  · rw [Unbounded.element, Unbounded.armStatement, Unbounded.StmtRule.parse,
      Unbounded.lift_bind_apply, current_apply]

end Inside

/-- One round of reading a statement list. -/
def statementsRound (element : Parser Stmt) (ends : TokenKind → Bool) (parsed : List Stmt) :
    Parser (ForInStep (List Stmt)) := do
  let token ← current
  if ends token.kind then return .done parsed
  else
    let next ← element
    return .yield (if next.isBroken then parsed else parsed ++ [next])

theorem statements_eq (element : Parser Stmt) (ends : TokenKind → Bool) (limit : Nat) :
    statements element ends limit = iterate (statementsRound element ends) limit [] := rfl

section Rounds

variable {element : Parser Stmt} {ends : TokenKind → Bool} {state : ParseState}

theorem statementsRound_of_ends (h : ends state.current.kind = true) (limit : Nat)
    (parsed : List Stmt) :
    iterate (statementsRound element ends) (limit + 1) parsed state = (parsed, state) := by
  rw [iterate, bind_apply, statementsRound, bind_apply, current_apply, if_pos h]
  rfl

theorem statementsRound_of_more (h : ends state.current.kind = false) (limit : Nat)
    (parsed : List Stmt) :
    iterate (statementsRound element ends) (limit + 1) parsed state =
      iterate (statementsRound element ends) limit
        (if (element state).1.isBroken then parsed else parsed ++ [(element state).1])
        (element state).2 := by
  rw [iterate, bind_apply, statementsRound, bind_apply, current_apply,
    if_neg (Bool.eq_false_iff.1 h)]
  rfl

end Rounds

theorem Place.ends_eof (place : Place) : place.ends .eof = true := by
  cases place <;> rfl

theorem Place.ne_eof {place : Place} {kind : TokenKind} (h : place.ends kind = false) :
    kind ≠ .eof := by
  rintro rfl
  rw [place.ends_eof] at h
  cases h

theorem Place.endsArm_of_ends {place : Place} {kind : TokenKind} (h : place.ends kind = true) :
    endsArm kind = true := by
  cases place with
  | program =>
    obtain rfl := of_decide_eq_true h
    rfl
  | braces => exact Bool.or_eq_true_iff.2 (.inl h)
  | arm => exact h

theorem statementsRound_runs {place : Place} {element : Parser Stmt}
    (helement : ElementRuns limit place element) (hdepth : limit ≤ depth) (before : List Stmt) :
    Runs limit (Unbounded.statements place before)
      (iterate (statementsRound element place.ends) depth before)
      fun after kinds next ↦ Spells (.statements place before after) kinds next := by
  refine iterate_runs (Unbounded.statements place)
    (fun before after kinds next ↦ Spells (.statements place before after) kinds next) hdepth
    (fun tokens rounds htokens ih before state hended hlimit ↦ ?_) before
  cases hends : place.ends state.current.kind with
  | true =>
    have hpure : RunsAt state 0 (pure before) (pure before)
        fun after kinds next ↦ Spells (.statements place before after) kinds next :=
      ⟨rfl, [], Nat.le_refl 0, .refl, fun _ ↦ .statementsEnd before hends⟩
    refine hpure.done (Unbounded.statements_of_ends hends before) ?_
    rw [statementsRound, bind_apply, current_apply, if_pos hends]
    rfl
  | false =>
    have hfirst := helement state hended (Nat.lt_of_lt_of_le hlimit htokens)
    rw [if_neg (Place.ne_eof hends)] at hfirst
    have hround := hfirst.and_current.bind hended (Nat.lt_succ_of_lt hlimit) fun next ↦
      Runs.pure (tokens + 1) (if next.isBroken then before else before ++ [next])
    refine ((hround.bind hended hlimit ih).mono (Nat.zero_le _) ?_).yield ?_ ?_
    · rintro after _ next ⟨_, _, back, rfl, ⟨parsed, front, _, rfl, ⟨hparsed, -, hleast⟩, rfl, rfl⟩,
        hback⟩
      rw [List.append_nil]
      rcases hparsed with ⟨hspells, hdirect⟩ | ⟨rfl, heof, hsemicolons⟩
      · rw [hspells.statement_not_broken] at hback
        exact .statements hspells hdirect hback
      · obtain ⟨rfl, rfl, rfl⟩ := hback.statements_of_eof heof
        obtain ⟨count, hcount⟩ := Nat.exists_eq_add_of_le' hleast
        rw [List.append_nil, List.eq_replicate_iff.2 ⟨hcount, hsemicolons⟩]
        exact .semicolons place _ count
    · rw [Unbounded.statements_of_more hends]
      simp only [bind_assoc, pure_bind]
    · rw [statementsRound, bind_apply, current_apply, if_neg (Bool.eq_false_iff.1 hends)]
      rfl

/-! ## Labels and arms -/

/-- A label, which may be followed by others. -/
theorem label_runsAt (hdepth : limit ≤ depth) (before : Labels) {state : ParseState}
    (hended : state.Ended) (hlimit : state.remaining < limit)
    (hlabel : isLabel state.current.kind = true) :
    RunsAt state 1 (Unbounded.label before) (label depth before) fun middle kinds _ ↦
      ∀ after more next, Spells (.labels middle after) more next →
        Spells (.labels before after) (kinds ++ more) next := by
  have heof : state.current.kind ≠ .eof := by
    intro hkind
    rw [hkind] at hlabel
    cases hlabel
  have hshift := RunsAt.shift hended heof
  have hlimit' := Nat.lt_succ_of_lt hlimit
  obtain ⟨cases, isDefault, defaultSeen⟩ := before
  by_cases hdefault : state.current.kind = .keyword .defaultLabel
  · have hcolon : Runs limit
        (do
          require (.mark .colon) .defaultWithoutColon
          return Labels.mk cases true true)
        (do
          require (.mark .colon) .defaultWithoutColon
          return Labels.mk cases true true)
        fun middle kinds _ ↦ middle = ⟨cases, true, true⟩ ∧ kinds = [.mark .colon] := by
      refine ((require_runs limit (by decide) _).bind fun _ ↦ .pure limit _).mono ?_
      rintro _ _ next ⟨_, _, _, rfl, rfl, rfl, rfl⟩
      exact ⟨rfl, rfl⟩
    cases defaultSeen with
    | true =>
      have hreport : Runs limit
          (liftM (report .repeatedDefault state.current.span))
          (report .repeatedDefault state.current.span) fun _ _ _ ↦ False :=
        fun _ _ _ ↦ .report _ _ _
      refine ((hshift.bind hended hlimit' fun _ ↦ hreport.bind fun _ ↦ hcolon).mono
        (Nat.le_refl 1) ?_).congr ?_ ?_
      · rintro _ _ _ ⟨_, _, _, -, -, _, _, _, -, hfalse, -⟩
        exact hfalse.elim
      · rw [Unbounded.label, Unbounded.lift_bind_apply]
        exact congrFun (if_pos hdefault) state.shift
      · rw [label, bind_apply]
        exact congrFun (if_pos hdefault) state.shift
    | false =>
      refine ((hshift.bind hended hlimit' fun _ ↦ hcolon).mono (Nat.le_refl 1) ?_).congr ?_ ?_
      · rintro _ _ _ ⟨_, _, _, rfl, rfl, rfl, rfl⟩ after more next hmore
        rw [hdefault]
        exact .defaultLabel hmore
      · rw [Unbounded.label, Unbounded.lift_bind_apply]
        exact congrFun (if_pos hdefault) state.shift
      · rw [label, bind_apply]
        exact congrFun (if_pos hdefault) state.shift
  · have hcase : state.current.kind = .keyword .caseLabel := by
      unfold isLabel at hlabel
      split at hlabel <;> first | assumption | contradiction
    refine ((hshift.bind hended hlimit' fun _ ↦
      ((expressionWithin_runs depth .lowest).lower hdepth).bind fun value ↦
      (require_runs limit (by decide : TokenKind.mark .colon ≠ .eof) .caseWithoutColon).bind fun _ ↦
      .pure limit (Labels.mk (cases ++ [value]) isDefault defaultSeen)).mono
      (Nat.le_refl 1) ?_).congr ?_ ?_
    · rintro _ _ _ ⟨_, _, _, rfl, rfl, value, kinds, _, rfl, hvalue, _, _, _, rfl, rfl, rfl, rfl⟩
        after more next hmore
      rw [hcase]
      simpa using Spells.caseLabel hvalue hmore
    · rw [Unbounded.label, Unbounded.lift_bind_apply]
      exact congrFun (if_neg hdefault) state.shift
    · rw [label, bind_apply]
      exact congrFun (if_neg hdefault) state.shift

/-- One round of reading labels. -/
def labelsRound (depth : Nat) (parsed : Labels) : Parser (ForInStep Labels) := do
  let token ← current
  if isLabel token.kind then return .yield (← label depth parsed) else return .done parsed

theorem labelsRound_runsAt (hdepth : limit ≤ depth) {tokens rounds : Nat} (htokens : tokens < limit)
    (hrest : ∀ labels, Runs tokens (Unbounded.labels labels)
      (iterate (labelsRound depth) rounds labels)
      fun after kinds next ↦ Spells (.labels labels after) kinds next)
    (before : Labels) {state : ParseState} (hended : state.Ended)
    (hlimit : state.remaining < tokens + 1) :
    RunsAt state (if isLabel state.current.kind then 1 else 0) (Unbounded.labels before)
      (iterate (labelsRound depth) (rounds + 1) before)
      fun after kinds next ↦ Spells (.labels before after) kinds next := by
  cases hlabel : isLabel state.current.kind with
  | true =>
    have hround := label_runsAt hdepth before hended (Nat.lt_of_lt_of_le hlimit htokens) hlabel
    refine ((hround.bind hended hlimit hrest).mono (Nat.le_refl 1) ?_).yield
      (Unbounded.labels_of_label hlabel before) ?_
    · rintro after _ next ⟨middle, front, back, rfl, hfront, hback⟩
      exact hfront after back next hback
    · rw [labelsRound, bind_apply, current_apply, if_pos hlabel]
      rfl
  | false =>
    have hpure : RunsAt state 0 (pure before) (pure before)
        fun after kinds next ↦ Spells (.labels before after) kinds next :=
      ⟨rfl, [], Nat.le_refl 0, .refl, fun _ ↦ .labelsEnd before hlabel⟩
    refine hpure.done (Unbounded.labels_of_stop hlabel before) ?_
    rw [labelsRound, bind_apply, current_apply, if_neg (Bool.eq_false_iff.1 hlabel)]
    rfl

theorem labelsRound_runs (hdepth : limit ≤ depth) {tokens rounds : Nat} (htokens : tokens ≤ limit)
    (hrounds : tokens ≤ rounds) (before : Labels) :
    Runs tokens (Unbounded.labels before) (iterate (labelsRound depth) rounds before)
      fun after kinds next ↦ Spells (.labels before after) kinds next :=
  iterate_runs Unbounded.labels
    (fun before after kinds next ↦ Spells (.labels before after) kinds next) hrounds
    (fun _ _ hfewer hrest before _ hended hlimit ↦
      (labelsRound_runsAt hdepth (Nat.lt_of_lt_of_le hfewer htokens) hrest before hended
        hlimit).mono (Nat.zero_le _) fun _ _ _ h ↦ h) before

/-- The labels of an arm, the first of which is in view. -/
theorem labels_runsAt (hdepth : limit ≤ depth) (defaultSeen : Bool) {state : ParseState}
    (hended : state.Ended) (hlimit : state.remaining < limit)
    (hlabel : isLabel state.current.kind = true) :
    RunsAt state 1 (Unbounded.labels ⟨[], false, defaultSeen⟩) (labels depth defaultSeen)
      fun after kinds next ↦ Spells (.labels ⟨[], false, defaultSeen⟩ after) kinds next := by
  obtain ⟨tokens, rfl⟩ : ∃ tokens, limit = tokens + 1 := ⟨limit - 1, by omega⟩
  obtain ⟨rounds, rfl⟩ : ∃ rounds, depth = rounds + 1 := ⟨depth - 1, by omega⟩
  have hrun := labelsRound_runsAt hdepth (Nat.lt_succ_self tokens)
    (labelsRound_runs hdepth (Nat.le_succ tokens) (Nat.le_of_succ_le_succ hdepth))
    ⟨[], false, defaultSeen⟩ hended hlimit
  rwa [hlabel] at hrun

section Inside

variable {statement : Bool → Parser Stmt} (hstatement : StatementRuns limit statement)
include hstatement

theorem inBraces_runs (hdepth : limit ≤ depth) :
    Runs limit
      (do
        let parsed ← Unbounded.statements .braces []
        require (.mark .closeBrace) .unclosedBody
        return parsed)
      (do
        let parsed ← statements (statement true) endsBody depth
        require (.mark .closeBrace) .unclosedBody
        return parsed)
      fun parsed kinds next ↦ Spells (.body parsed) (.mark .openBrace :: kinds) next := by
  have helement : ElementRuns limit .braces (statement true) :=
    statement_elementRuns hstatement (by decide)
  refine ((statementsRound_runs helement hdepth []).bind fun parsed ↦
    (require_runs limit (by decide) _).bind fun _ ↦ .pure limit parsed).mono ?_
  rintro _ _ next ⟨parsed, kinds, _, rfl, hparsed, _, _, _, rfl, rfl, rfl, rfl⟩
  exact .body next hparsed

theorem body_runs (hdepth : limit ≤ depth) :
    Runs limit Unbounded.body (body statement depth)
      fun parsed kinds next ↦ Spells (.body parsed) kinds next := by
  rw [Unbounded.body, Unbounded.StmtRule.parse]
  refine ((expect_runs limit (by decide) _).bind fun _ ↦ inBraces_runs hstatement hdepth).mono ?_
  rintro parsed _ next ⟨_, _, kinds, rfl, rfl, hparsed⟩
  exact hparsed

end Inside

/-- One round of reading the arms of a switch. -/
def armsRound (statement : Bool → Parser Stmt) (depth : Nat) (parsed : List (Arm Stmt) × Bool) :
    Parser (ForInStep (List (Arm Stmt) × Bool)) := do
  let token ← current
  if isLabel token.kind then
    let front ← labels depth parsed.2
    let behind ← statements (armStatement statement) endsArm depth
    return .yield (parsed.1 ++ [⟨front.cases, front.isDefault, behind⟩], front.defaultSeen)
  else return .done parsed

section Inside

variable {statement : Bool → Parser Stmt} (hstatement : StatementRuns limit statement)
include hstatement

theorem arms_runs (hdepth : limit ≤ depth) :
    Runs limit (Unbounded.arms ([], false)) (iterate (armsRound statement depth) depth ([], false))
      fun after kinds next ↦ Spells (.arms ([], false) after) kinds next := by
  refine iterate_runs Unbounded.arms
    (fun before after kinds next ↦ Spells (.arms before after) kinds next) hdepth
    (fun tokens rounds htokens ih before state hended hlimit ↦ ?_) ([], false)
  cases hlabel : isLabel state.current.kind with
  | true =>
    have hfront := (labels_runsAt (Nat.le_trans htokens hdepth) before.2 hended hlimit hlabel)
    have hbehind := (statementsRound_runs (armStatement_elementRuns hstatement) hdepth []).lower
      htokens
    have hround := hfront.and_current.bind hended (Nat.lt_succ_of_lt hlimit) fun front ↦
      hbehind.bind fun behind ↦ Runs.pure (tokens + 1)
        (before.1 ++ [Arm.mk front.cases front.isDefault behind], front.defaultSeen)
    refine ((hround.bind hended hlimit ih).mono (Nat.zero_le _) ?_).yield ?_ ?_
    · rintro after _ next ⟨_, _, others, rfl, ⟨front, kinds, _, rfl, ⟨hlabels, hcurrent, hleast⟩,
        behind, more, _, rfl, hmore, rfl, rfl⟩, hothers⟩
      cases kinds with
      | nil => cases hleast
      | cons kind kinds =>
        obtain rfl : state.current.kind = kind := hcurrent
        have hnext : (more ++ []).headD (others.headD next) = (more ++ others).headD next := by
          cases more <;> rfl
        rw [hnext] at hlabels
        rw [List.append_nil, List.cons_append, List.cons_append, List.append_assoc]
        exact .arms hlabel hlabels hmore hothers
    · rw [Unbounded.arms_of_label hlabel]
      simp only [bind_assoc, pure_bind]
    · rw [armsRound, bind_apply, current_apply, if_pos hlabel]
      rfl
  | false =>
    have hpure : RunsAt state 0 (pure before) (pure before)
        fun after kinds next ↦ Spells (.arms before after) kinds next :=
      ⟨rfl, [], Nat.le_refl 0, .refl, fun _ ↦ .armsEnd before hlabel⟩
    refine hpure.done (Unbounded.arms_of_stop hlabel before) ?_
    rw [armsRound, bind_apply, current_apply, if_neg (Bool.eq_false_iff.1 hlabel)]
    rfl

/-! ## Statements -/

theorem switch_runs (hdepth : limit ≤ depth) (mayDeclare : Bool) :
    Runs limit Unbounded.switch (switch statement depth) fun parsed kinds next ↦
      Spells (.statement mayDeclare parsed) (.keyword .switch :: kinds) next := by
  have hswitch : switch statement depth = (do
      let subject ← expressionWithin depth .lowest
      require (.mark .openBrace) .unopenedSwitch
      let parsed ← iterate (armsRound statement depth) depth ([], false)
      require (.mark .closeBrace) .unclosedSwitch
      return .switch subject parsed.1) := rfl
  rw [Unbounded.switch, Unbounded.StmtRule.parse, hswitch]
  refine (((expressionWithin_runs depth .lowest).lower hdepth).bind fun subject ↦
    (require_runs limit (by decide) _).bind fun _ ↦ (arms_runs hstatement hdepth).bind fun parsed ↦
    (require_runs limit (by decide) _).bind fun _ ↦ .pure limit _).mono ?_
  rintro _ _ next ⟨subject, kinds, _, rfl, hsubject, _, _, _, rfl, rfl, parsed, more, _, rfl,
    hparsed, _, _, _, rfl, rfl, rfl, rfl⟩
  exact .switch mayDeclare next hsubject hparsed

omit hstatement in
theorem binding_runs (limit : Nat) :
    Runs limit (liftM binding) binding fun name kinds _ ↦ kinds = [.identifier name] := by
  intro state hended _
  refine ⟨rfl, ?_⟩
  have hadvance : advance state = (state.current, state.shift) := rfl
  rw [binding, bind_apply, hadvance]
  cases hkind : state.current.kind with
  | identifier name =>
    have hpos := hended.remaining_pos (by simp [hkind])
    exact ⟨_, Nat.zero_le _, Takes.refl.shift hpos, fun _ ↦ by simp [hkind]; rfl⟩
  | _ =>
    obtain ⟨taken, htakes⟩ := state.exists_takes_shift
    exact ⟨taken, Nat.zero_le _, htakes.record _, fun hclean ↦
      absurd hclean (diagnostics_record_ne_nil _ _)⟩

theorem attempt_runs (hdepth : limit ≤ depth) (mayDeclare : Bool) :
    Runs limit Unbounded.attempt (attempt statement depth) fun parsed kinds next ↦
      Spells (.statement mayDeclare parsed) (.keyword .attempt :: kinds) next := by
  rw [Unbounded.attempt, Unbounded.StmtRule.parse]
  have hbody := body_runs hstatement hdepth
  refine (hbody.bind fun attempted ↦ (expect_runs limit (by decide) _).bind fun _ ↦
    (require_runs limit (by decide) _).bind fun _ ↦ (binding_runs limit).bind fun name ↦
    (require_runs limit (by decide) _).bind fun _ ↦ hbody.bind fun handler ↦ .pure limit _).mono ?_
  rintro _ _ next ⟨attempted, kinds, _, rfl, hattempted, _, _, _, rfl, rfl, _, _, _, rfl, rfl, name,
    _, _, rfl, rfl, _, _, _, rfl, rfl, handler, more, _, rfl, hhandler, rfl, rfl⟩
  rw [List.append_nil]
  exact .attempt mayDeclare name hattempted hhandler

omit hstatement in
/-- A keyword and what follows it. -/
theorem keyword_runsAt {mayDeclare : Bool} {state : ParseState} (hended : state.Ended)
    (hlimit : state.remaining < limit + 1) (heof : state.current.kind ≠ .eof)
    {unbounded : Unbounded Stmt} {parser : Parser Stmt}
    (hrun : Runs limit unbounded parser fun parsed kinds next ↦
      Spells (.statement mayDeclare parsed) (state.current.kind :: kinds) next) :
    RunsAt state 1 (do modify ParseState.shift; unbounded) (do modify ParseState.shift; parser)
      (StatementPost mayDeclare) := by
  refine ((RunsAt.shift hended heof).bind hended hlimit fun _ ↦ hrun).mono (Nat.le_refl 1) ?_
  rintro parsed _ next ⟨_, _, kinds, rfl, rfl, hparsed⟩
  exact .inl hparsed

/-- A block, which begins with the brace in view. -/
theorem block_runsAt (mayDeclare : Bool) {state : ParseState} (hended : state.Ended)
    (hlimit : state.remaining < limit + 1) (hkind : state.current.kind = .mark .openBrace) :
    RunsAt state 1 (do return .block (← Unbounded.body))
      (do return .block (← body statement (limit + 1))) (StatementPost mayDeclare) := by
  refine (((RunsAt.shift hended (hkind ▸ by decide)).bind hended hlimit fun _ ↦
    (inBraces_runs hstatement (Nat.le_succ limit)).bind fun parsed ↦
    .pure limit (.block parsed)).mono (Nat.le_refl 1) ?_).congr ?_ ?_
  · rintro _ _ next ⟨_, _, _, rfl, rfl, parsed, kinds, _, rfl, hparsed, rfl, rfl⟩
    rw [List.append_nil, hkind]
    exact .inl (.block mayDeclare hparsed)
  · rw [Unbounded.body, Unbounded.StmtRule.parse, bind_assoc, Unbounded.lift_bind_apply,
      expect_of_eq hkind]
    rfl
  · rw [body, bind_assoc, bind_apply, expect_of_eq hkind]
    rfl

theorem statementAt_runsAt (mayDeclare : Bool) {state : ParseState} (hended : state.Ended)
    (hlimit : state.remaining < limit + 1) (hsemicolon : state.current.kind ≠ .mark .semicolon) :
    RunsAt state (if state.current.kind = .eof then 0 else 1)
      (Unbounded.statementAt mayDeclare state.current)
      (statementAt statement (limit + 1) mayDeclare state.current) (StatementPost mayDeclare) := by
  have hdepth := Nat.le_succ limit
  have hguarded := guarded_runs hstatement hdepth
  have hkeyword {keyword : Keyword} (hkind : state.current.kind = .keyword keyword)
      {unbounded : Unbounded Stmt} {parser : Parser Stmt}
      (hrun : Runs limit unbounded parser fun parsed kinds next ↦
        Spells (.statement mayDeclare parsed) (.keyword keyword :: kinds) next) :=
    keyword_runsAt hended hlimit (hkind ▸ TokenKind.noConfusion) (hkind ▸ hrun)
  unfold statementAt
  by_cases heof : state.current.kind = .eof
  · rw [Unbounded.statementAt, Unbounded.StmtRule.parse]
    simp only [heof]
    exact ⟨rfl, [], Nat.le_refl 0, .refl, fun _ ↦ .inr ⟨rfl, heof, by simp⟩⟩
  rw [if_neg heof]
  split
  all_goals rw [Unbounded.statementAt, Unbounded.StmtRule.parse]
  · contradiction
  · rename_i hkind
    simp only [hkind]
    have hdeclaration := declaration_runsAt hended hlimit hkind
    cases mayDeclare with
    | true => exact hdeclaration.mono (Nat.le_refl 1) fun _ _ _ h ↦ .inl h
    | false =>
      have hreport : RunsAt state 0 (liftM (report .declarationInBranch state.current.span))
        (report .declarationInBranch state.current.span) fun _ _ _ ↦ False := .report _ _ _
      have hbehind : RunsAt (report .declarationInBranch state.current.span state).2 1
        Unbounded.declaration (declaration (limit + 1)) _ := declaration_runsAt hended hlimit hkind
      refine RunsAt.mono (hreport.bindAt hbehind) (Nat.le_refl 1) ?_
      rintro _ _ next ⟨_, _, -, hfalse, -⟩
      exact hfalse.elim
  · rename_i hkind
    simp only [hkind]
    refine hkeyword hkind ((hguarded.bind fun parsed ↦
      (alternative_runs hstatement hdepth (Nat.le_refl _) hdepth).bind fun rest ↦
      .pure limit (Stmt.when parsed.1 parsed.2 rest)).mono ?_)
    rintro _ _ next ⟨parsed, kinds, _, rfl, hparsed, rest, more, _, rfl, hrest, rfl, rfl⟩
    rw [List.append_nil] at hparsed ⊢
    exact .when mayDeclare hparsed hrest
  · rename_i hkind
    simp only [hkind]
    refine hkeyword hkind ((hguarded.bind fun parsed ↦
      .pure limit (Stmt.loop parsed.1 parsed.2)).mono ?_)
    rintro _ _ next ⟨parsed, kinds, _, rfl, hparsed, rfl, rfl⟩
    rw [List.append_nil]
    exact .loop mayDeclare hparsed
  · rename_i hkind
    simp only [hkind]
    refine hkeyword hkind (((terminated_runs .print hdepth).bind fun value ↦
      .pure limit (Stmt.print value)).mono ?_)
    rintro _ _ next ⟨value, _, _, rfl, ⟨kinds, rfl, hkinds⟩, rfl, rfl⟩
    rw [List.append_nil]
    exact .print mayDeclare next hkinds
  · rename_i hkind
    simp only [hkind]
    exact hkeyword hkind (switch_runs hstatement hdepth mayDeclare)
  · rename_i hkind
    simp only [hkind]
    exact hkeyword hkind (attempt_runs hstatement hdepth mayDeclare)
  · rename_i hkind
    simp only [hkind]
    refine hkeyword hkind (((terminated_runs .throw hdepth).bind fun value ↦
      .pure limit (Stmt.throw value)).mono ?_)
    rintro _ _ next ⟨value, _, _, rfl, ⟨kinds, rfl, hkinds⟩, rfl, rfl⟩
    rw [List.append_nil]
    exact .throw mayDeclare next hkinds
  · rename_i hkind
    simp only [hkind]
    have hend := require_runs limit (by decide : TokenKind.mark .semicolon ≠ .eof)
      (.unterminated .leave)
    refine hkeyword hkind ((hend.bind fun _ ↦ .pure limit Stmt.leave).mono ?_)
    rintro _ _ next ⟨_, _, _, rfl, rfl, rfl, rfl⟩
    exact .leave mayDeclare next
  · rename_i hkind
    simp only [hkind]
    exact block_runsAt hstatement mayDeclare hended hlimit hkind
  · have hrestart : isRestart state.current.kind = false := by
      unfold isRestart
      split <;> first | contradiction | rfl
    have hvalue := terminated_runsAt .expression hended hlimit
    rw [hrestart] at hvalue
    have hrun := hvalue.bind hended (Nat.lt_succ_of_lt hlimit) fun value ↦
      .pure (limit + 1) (Stmt.expression value)
    split
    all_goals first | contradiction | skip
    refine hrun.mono (Nat.le_refl 1) ?_
    rintro _ _ next ⟨value, _, _, rfl, ⟨kinds, rfl, hkinds⟩, rfl, rfl⟩
    rw [List.append_nil]
    exact .inl (.evaluation mayDeclare next hkinds)

end Inside

theorem statementWithin_runs (limit : Nat) : StatementRuns limit (statementWithin limit) := by
  induction limit with
  | zero => exact fun _ _ _ hlimit ↦ absurd hlimit (Nat.not_lt_zero _)
  | succ limit ih =>
    intro mayDeclare state hended hlimit
    by_cases hsemicolon : state.current.kind = .mark .semicolon
    · rw [hsemicolon, Unbounded.statement, Unbounded.StmtRule.parse, statementWithin]
      refine (skipSemicolons_bind hended fun after hafter hle hne ↦
        (?_ : RunsAt after 0 _ _ (StatementPost mayDeclare))).mono ?_ ?_
      · have hrun := statementAt_runsAt ih mayDeclare hafter (Nat.lt_of_le_of_lt hle hlimit) hne
        exact (hrun.mono (Nat.zero_le _) fun _ _ _ h ↦ h).congr rfl rfl
      · rw [if_pos hsemicolon]
        exact Nat.le_refl 1
      · rintro parsed _ next ⟨front, back, rfl, hfront, hspells | ⟨hbroken, heof, hback⟩⟩
        · exact .inl (hspells.semicolons_append hfront)
        · exact .inr ⟨hbroken, heof, List.forall_mem_append.2 ⟨hfront, hback⟩⟩
    · refine (statementAt_runsAt ih mayDeclare hended hlimit hsemicolon).congr
        (Unbounded.statement_of_ne_semicolon hsemicolon mayDeclare) ?_
      have hskip : skipSemicolons state = ((), state) :=
        congrArg (Prod.mk ()) (skipWhile_of_stop (decide_eq_false hsemicolon))
      rw [statementWithin, bind_apply, hskip]
      rfl

end Parser

end Slang
