import Slang.Proofs.Grammar
import Slang.Proofs.TokenStream

/-!
# Runs of the expression parser

What is shown of each parser here: where its limit exceeds the tokens left, the parser without
limits ends with the same result in the same state; it takes tokens in order, at least so many of
them; and if nothing was reported, what it took spells the result. `RunsAt` is the statement about
one state, and it passes through sequences of parsers.
-/

namespace Slang

namespace Parser

open ParseState

variable {Result Next : Type}

/-- What is to hold of a result, the kinds of the tokens taken for it, and the kind of the token
in view behind them. -/
abbrev Post (Result : Type) := Result → List TokenKind → TokenKind → Prop

/-- Without limits a parser ends as with them, after taking at least `least` tokens, and unless it
reports anything the condition holds in the end. -/
def RunsAt (state : ParseState) (least : Nat) (unbounded : Unbounded Result)
    (parser : Parser Result) (post : Post Result) : Prop :=
  unbounded state = some (parser state) ∧
    ∃ taken, least ≤ taken.length ∧ state.Takes taken (parser state).2 ∧
      ((parser state).2.diagnostics = [] →
        post (parser state).1 (taken.map Token.kind) (parser state).2.current.kind)

/-- The parser runs well in every state with fewer tokens left than its limit. -/
def Runs (limit : Nat) (unbounded : Unbounded Result) (parser : Parser Result)
    (post : Post Result) : Prop :=
  ∀ state, state.Ended → state.remaining < limit → RunsAt state 0 unbounded parser post

/-- One condition after the other, on two parts of the tokens. -/
def Then (first : Post Result) (second : Result → Post Next) : Post Next :=
  fun outcome kinds next ↦ ∃ result front back,
    kinds = front ++ back ∧ first result front (back.headD next) ∧ second result outcome back next

namespace RunsAt

variable {state : ParseState} {least more : Nat} {unbounded : Unbounded Result}
  {parser : Parser Result} {post : Post Result}

theorem pure (state : ParseState) (result : Result) :
    RunsAt state 0 (Pure.pure result) (Pure.pure result)
      fun outcome kinds _ ↦ outcome = result ∧ kinds = [] :=
  ⟨rfl, [], Nat.le_refl 0, .refl, fun _ ↦ ⟨rfl, rfl⟩⟩

/-- The second parser has to run well only in the state that the first one leaves. -/
theorem bindAt {unbounded' : Result → Unbounded Next} {parser' : Result → Parser Next}
    {post' : Post Next} (hfirst : RunsAt state least unbounded parser post)
    (hnext : RunsAt (parser state).2 more (unbounded' (parser state).1)
      (parser' (parser state).1) post') :
    RunsAt state (least + more) (unbounded >>= unbounded') (parser >>= parser')
      fun outcome kinds next ↦ ∃ front back, kinds = front ++ back ∧
        post (parser state).1 front (back.headD next) ∧ post' outcome back next := by
  obtain ⟨hends, taken, hleast, htakes, hpost⟩ := hfirst
  obtain ⟨hends', taken', hmore, htakes', hpost'⟩ := hnext
  refine ⟨?_, taken ++ taken', ?_, htakes.trans htakes', fun hclean ↦ ?_⟩
  · change (unbounded state).bind _ = _
    rw [hends]
    exact hends'
  · rw [List.length_append]
    exact Nat.add_le_add hleast hmore
  · refine ⟨_, _, List.map_append, ?_, hpost' hclean⟩
    have hmiddle := hpost (htakes'.diagnostics_eq_nil hclean)
    rwa [htakes'.current_eq] at hmiddle

theorem mono {weaker : Post Result} {least' : Nat}
    (h : RunsAt state least unbounded parser post) (hleast : least' ≤ least)
    (hweaker : ∀ result kinds next, post result kinds next → weaker result kinds next) :
    RunsAt state least' unbounded parser weaker := by
  obtain ⟨hends, taken, htaken, htakes, hpost⟩ := h
  exact ⟨hends, taken, Nat.le_trans hleast htaken, htakes, fun hclean ↦
    hweaker _ _ _ (hpost hclean)⟩

theorem congr {unbounded' : Unbounded Result} {parser' : Parser Result}
    (h : RunsAt state least unbounded parser post) (hunbounded : unbounded' state = unbounded state)
    (hparser : parser' state = parser state) : RunsAt state least unbounded' parser' post := by
  unfold RunsAt at h ⊢
  rwa [hunbounded, hparser]

theorem remaining_add_le (h : RunsAt state least unbounded parser post) :
    (parser state).2.remaining + least ≤ state.remaining := by
  obtain ⟨-, taken, hleast, htakes, -⟩ := h
  have hremaining := htakes.remaining_eq
  omega

theorem ended (h : RunsAt state least unbounded parser post) (hended : state.Ended) :
    (parser state).2.Ended := by
  obtain ⟨-, taken, -, htakes, -⟩ := h
  exact htakes.ended hended

/-- Taking the token in view, which is not the end of the text. -/
theorem shift (hended : state.Ended) (hcurrent : state.current.kind ≠ .eof) :
    RunsAt state 1 (modify ParseState.shift) (modify ParseState.shift)
      fun _ kinds _ ↦ kinds = [state.current.kind] :=
  ⟨rfl, [state.current], Nat.le_refl 1, Takes.refl.shift (hended.remaining_pos hcurrent),
    fun _ ↦ rfl⟩

/-- A parser that reports something is not bound to anything else. -/
theorem report (problem : Problem) (span : Span) (post : Post Unit) :
    RunsAt state 0 (liftM (Parser.report problem span)) (Parser.report problem span) post :=
  ⟨rfl, [], Nat.le_refl 0, Takes.refl.record _, fun hclean ↦
    absurd hclean (diagnostics_record_ne_nil _ _)⟩

end RunsAt

theorem RunsAt.bind {state : ParseState} {least limit : Nat} {unbounded : Unbounded Result}
    {parser : Parser Result} {post : Post Result} {unbounded' : Result → Unbounded Next}
    {parser' : Result → Parser Next} {post' : Result → Post Next}
    (hfirst : RunsAt state least unbounded parser post) (hended : state.Ended)
    (hlimit : state.remaining < limit + least)
    (hnext : ∀ result, Runs limit (unbounded' result) (parser' result) (post' result)) :
    RunsAt state least (unbounded >>= unbounded') (parser >>= parser') (Then post post') := by
  have hremaining := hfirst.remaining_add_le
  refine (hfirst.bindAt (hnext _ _ (hfirst.ended hended) (by omega))).mono (Nat.le_refl _) ?_
  rintro outcome kinds next ⟨front, back, hkinds, hfront, hback⟩
  exact ⟨_, front, back, hkinds, hfront, hback⟩

namespace Runs

variable {limit : Nat} {unbounded : Unbounded Result} {parser : Parser Result}
  {post : Post Result}

theorem pure (limit : Nat) (result : Result) :
    Runs limit (Pure.pure result) (Pure.pure result)
      fun outcome kinds _ ↦ outcome = result ∧ kinds = [] :=
  fun state _ _ ↦ .pure state result

theorem bind {unbounded' : Result → Unbounded Next} {parser' : Result → Parser Next}
    {post' : Result → Post Next} (hfirst : Runs limit unbounded parser post)
    (hnext : ∀ result, Runs limit (unbounded' result) (parser' result) (post' result)) :
    Runs limit (unbounded >>= unbounded') (parser >>= parser') (Then post post') :=
  fun state hended hlimit ↦ (hfirst state hended hlimit).bind hended hlimit hnext

theorem mono {weaker : Post Result} (h : Runs limit unbounded parser post)
    (hweaker : ∀ result kinds next, post result kinds next → weaker result kinds next) :
    Runs limit unbounded parser weaker :=
  fun state hended hlimit ↦ (h state hended hlimit).mono (Nat.le_refl 0) hweaker

theorem lower {bound : Nat} (h : Runs limit unbounded parser post) (hbound : bound ≤ limit) :
    Runs bound unbounded parser post :=
  fun state hended hlimit ↦ h state hended (Nat.lt_of_lt_of_le hlimit hbound)

end Runs

theorem require_runs (limit : Nat) {kind : TokenKind} (hkind : kind ≠ .eof) (problem : Problem) :
    Runs limit (liftM (require kind problem)) (require kind problem)
      fun _ kinds _ ↦ kinds = [kind] := by
  intro state hended hlimit
  refine ⟨rfl, ?_⟩
  by_cases hcurrent : state.current.kind = kind
  · rw [require_of_eq hcurrent]
    have hpos := hended.remaining_pos (hcurrent ▸ hkind)
    exact ⟨_, Nat.zero_le _, Takes.refl.shift hpos, fun _ ↦ by simp [hcurrent]⟩
  · rw [require_of_ne hcurrent]
    exact ⟨[], Nat.zero_le _, Takes.refl.record _, fun hclean ↦
      absurd hclean (diagnostics_record_ne_nil _ _)⟩

/-- Tokens are skipped as long as they are to be, and the end of the text stops that. -/
theorem skipWhile_runs (skip : TokenKind → Bool) (hstop : skip .eof = false) {state : ParseState}
    (hended : state.Ended) :
    Unbounded.skipWhile skip state = some ((), state.skipWhile skip) ∧
      (∃ taken, state.Takes taken (state.skipWhile skip) ∧ ∀ token ∈ taken, skip token.kind) ∧
      skip (state.skipWhile skip).current.kind = false := by
  unfold ParseState.skipWhile
  rw [Unbounded.skipWhile, Unbounded.ExprRule.parse]
  change (if skip state.current.kind = true then
      (do modify ParseState.shift; Unbounded.skipWhile skip : Unbounded Unit)
    else pure ()) state = _ ∧ _
  generalize hupcoming : state.upcoming = upcoming
  induction upcoming generalizing state with
  | nil =>
    have hcurrent : state.current.kind = .eof :=
      hended.current_eq_eof_iff.2 (congrArg List.length hupcoming)
    rw [hcurrent, hstop]
    refine ⟨rfl, ⟨[], .refl, by simp⟩, ?_⟩
    rw [skipWithin, hcurrent]
    exact hstop
  | cons lexeme upcoming ih =>
    rw [skipWithin]
    by_cases hskip : skip state.current.kind = true
    · rw [if_pos hskip, if_pos hskip]
      have hshift : state.shift.upcoming = upcoming := by rw [shift_of_upcoming_cons hupcoming]
      obtain ⟨hends, ⟨taken, htakes, htaken⟩, hlast⟩ := ih hended.shift hshift
      refine ⟨?_, ⟨state.current :: taken, ?_, ?_⟩, hlast⟩
      · change Unbounded.skipWhile skip state.shift = _
        rw [Unbounded.skipWhile, Unbounded.ExprRule.parse]
        exact hends
      · have hpos : 0 < state.remaining := by rw [remaining, hupcoming]; exact Nat.succ_pos _
        exact (Takes.refl.shift hpos).trans htakes
      · exact List.forall_mem_cons.2 ⟨hskip, htaken⟩
    · rw [if_neg hskip, if_neg hskip]
      exact ⟨rfl, ⟨[], .refl, by simp⟩, eq_false_of_ne_true hskip⟩

theorem synchronize_runsAt {state : ParseState} (hended : state.Ended) :
    RunsAt state (if isRestart state.current.kind then 0 else 1) Unbounded.synchronize synchronize
      fun _ _ _ ↦ True := by
  obtain ⟨hends, ⟨taken, htakes, -⟩, hlast⟩ :=
    skipWhile_runs (fun kind ↦ !isRestart kind) rfl hended
  refine ⟨hends, taken, ?_, htakes, fun _ ↦ trivial⟩
  split
  · exact Nat.zero_le _
  · rename_i hrestart
    cases taken with
    | nil =>
      rw [htakes.current_eq] at hrestart
      exact absurd (by simpa using hlast) hrestart
    | cons token taken => exact Nat.succ_pos _

/-- Reporting a problem and skipping to where reading can go on. -/
theorem giveUp_runsAt (problem : Problem) (span : Span) (result : Result) {state : ParseState}
    (hended : state.Ended) (post : Post Result) :
    RunsAt state (if isRestart state.current.kind then 0 else 1)
      (do report problem span; Unbounded.synchronize; return result)
      (do report problem span; synchronize; return result) post := by
  have hreport : RunsAt state 0 (liftM (report problem span)) (report problem span)
    fun _ _ _ ↦ False := .report _ _ _
  have hsynchronize : RunsAt (report problem span state).2
    (if isRestart state.current.kind then 0 else 1) _ _ _ := synchronize_runsAt hended
  refine RunsAt.mono (hreport.bindAt (hsynchronize.bindAt (.pure _ _))) ?_ ?_
  · split <;> decide
  · rintro _ _ next ⟨_, _, -, hfalse, -⟩
    exact hfalse.elim

section Loops

variable {loop : Result → Unbounded Result} {step : Result → Parser (ForInStep Result)}
  {state : ParseState} {result : Result} {least rounds : Nat} {unbounded : Unbounded Result}
  {parser : Parser Result} {post : Post Result}

/-- The last round of a loop. -/
theorem RunsAt.done (h : RunsAt state least unbounded parser post)
    (hloop : loop result state = unbounded state)
    (hstep : step result state = (.done (parser state).1, (parser state).2)) :
    RunsAt state least (loop result) (iterate step (rounds + 1) result) post := by
  refine h.congr hloop ?_
  rw [iterate, bind_apply, hstep]
  rfl

/-- A round of a loop after which another one follows. -/
theorem RunsAt.yield
    (h : RunsAt state least (unbounded >>= loop) (parser >>= iterate step rounds) post)
    (hloop : loop result state = (unbounded >>= loop) state)
    (hstep : step result state = (.yield (parser state).1, (parser state).2)) :
    RunsAt state least (loop result) (iterate step (rounds + 1) result) post := by
  refine h.congr hloop ?_
  rw [iterate, bind_apply, hstep]
  rfl

end Loops

/-- A loop runs well if each of its rounds does, given that what the loop does after that round runs
well with one token less. -/
theorem iterate_runs (loop : Result → Unbounded Result) (post : Result → Post Result)
    {step : Result → Parser (ForInStep Result)} {bound limit : Nat} (hbound : bound ≤ limit)
    (hround : ∀ tokens rounds, tokens < bound → (∀ result, Runs tokens (loop result)
      (iterate step rounds result) (post result)) → ∀ result, Runs (tokens + 1) (loop result)
        (iterate step (rounds + 1) result) (post result)) (result : Result) :
    Runs bound (loop result) (iterate step limit result) (post result) := by
  have hall (tokens rounds : Nat) (htokens : tokens ≤ bound) (hrounds : tokens ≤ rounds)
      (result : Result) :
      Runs tokens (loop result) (iterate step rounds result) (post result) := by
    induction tokens generalizing rounds result with
    | zero => exact fun _ _ hlimit ↦ absurd hlimit (Nat.not_lt_zero _)
    | succ tokens ih =>
      obtain ⟨rounds, rfl⟩ : ∃ fewer, rounds = fewer + 1 := ⟨rounds - 1, by omega⟩
      exact hround tokens rounds htokens (ih rounds (by omega) (by omega)) result
  exact hall bound limit (Nat.le_refl _) hbound result

/-! ## Expressions -/

theorem opening?_of_not_opens {kind : TokenKind} (h : opens kind = false) (inner : Inner) :
    opening? inner kind = none := by
  unfold opening?
  split <;> first | cases h | rfl

theorem continuation?_of_ofSymbol? {symbol : Symbol} {op : BinaryOp}
    (h : BinaryOp.ofSymbol? symbol = some op) (inner : Inner) (limit : Nat) :
    continuation? inner limit (.symbol symbol) =
      some ⟨op.precedence, fun left _ ↦ binary inner op left⟩ := by
  unfold BinaryOp.ofSymbol? at h
  split at h <;> cases h <;> rfl

theorem not_le_of_continuation? {inner : Inner} {limit : Nat} {minimum : Precedence}
    {kind : TokenKind} {continuation : Continuation} (hstop : continues minimum kind = false)
    (h : continuation? inner limit kind = some continuation) :
    ¬minimum ≤ continuation.precedence := by
  unfold continuation? at h
  split at h
  · cases h
    exact of_decide_eq_false hstop
  · cases h
    exact of_decide_eq_false hstop
  · cases h
    exact of_decide_eq_false hstop
  · obtain ⟨op, hop, rfl⟩ := Option.map_eq_some_iff.1 h
    intro hle
    unfold continues at hstop
    simp_all
  · cases h

section Inner

variable {inner : Inner} {limit : Nat}
  (hinner : ∀ minimum, Runs limit (Unbounded.expression minimum) (inner minimum)
    fun value kinds next ↦ Spells (.expression minimum value) kinds next)
include hinner

theorem opening?_runs {kind : TokenKind} (hopens : opens kind = true) :
    ∃ rest, opening? inner kind = some rest ∧
      Runs limit (Unbounded.operand kind) rest
        fun value kinds next ↦ Spells (.operand kind value) kinds next := by
  have hsigned (op : UnaryOp) : Runs limit
      (do return .unary op (← Unbounded.expression .sign)) (signed inner op)
      fun value kinds next ↦ Spells (.operand op.kind value) kinds next := by
    refine ((hinner .sign).bind fun operand ↦ .pure limit _).mono ?_
    rintro _ _ next ⟨operand, kinds, _, rfl, hoperand, rfl, rfl⟩
    rw [List.append_nil]
    exact .signed op hoperand
  have hgroup : Runs limit (Unbounded.operand (.mark .openParen)) (group inner)
      fun value kinds next ↦ Spells (.operand (.mark .openParen) value) kinds next := by
    rw [Unbounded.operand, Unbounded.ExprRule.parse]
    refine ((hinner .lowest).bind fun inside ↦ (require_runs limit (by decide) _).bind fun _ ↦
      .pure limit _).mono ?_
    rintro _ _ next ⟨inside, kinds, _, rfl, hinside, _, _, _, rfl, rfl, rfl, rfl⟩
    exact .group hinside
  unfold opens at hopens
  split at hopens
  · refine ⟨_, rfl, ?_⟩
    rw [Unbounded.operand, Unbounded.ExprRule.parse]
    exact (Runs.pure limit _).mono fun _ _ next h ↦ h.1 ▸ h.2 ▸ .number _ next
  · refine ⟨_, rfl, ?_⟩
    rw [Unbounded.operand, Unbounded.ExprRule.parse]
    exact (Runs.pure limit _).mono fun _ _ next h ↦ h.1 ▸ h.2 ▸ .string _ next
  · refine ⟨_, rfl, ?_⟩
    rw [Unbounded.operand, Unbounded.ExprRule.parse]
    exact (Runs.pure limit _).mono fun _ _ next h ↦ h.1 ▸ h.2 ▸ .identifier _ next
  · refine ⟨_, rfl, ?_⟩
    rw [Unbounded.operand, Unbounded.ExprRule.parse]
    exact hsigned .plus
  · refine ⟨_, rfl, ?_⟩
    rw [Unbounded.operand, Unbounded.ExprRule.parse]
    exact hsigned .minus
  · exact ⟨_, rfl, hgroup⟩
  · cases hopens

theorem arguments_runs :
    Runs limit (Unbounded.arguments []) (arguments inner limit)
      fun parsed kinds next ↦ Spells (.arguments [] parsed) kinds next := by
  refine iterate_runs Unbounded.arguments
    (fun before parsed kinds next ↦ Spells (.arguments before parsed) kinds next)
    (Nat.le_refl limit) (fun tokens rounds htokens ih before state hended hlimit ↦ ?_) []
  by_cases hstop : state.current.kind = .mark .closeParen ∨ state.current.kind = .eof
  · have hpure : RunsAt state 0 (pure before) (pure before)
        fun parsed kinds next ↦ Spells (.arguments before parsed) kinds next :=
      ⟨rfl, [], Nat.le_refl 0, .refl, fun _ ↦ .argumentsEnd before hstop⟩
    refine hpure.done (Unbounded.arguments_of_stop hstop before) ?_
    rw [bind_apply, current_apply, if_pos hstop]
    rfl
  · have hargument := (hinner .lowest).lower htokens state hended hlimit
    have ⟨hends, taken, hleast, htakes, hspells⟩ := hargument
    have hended' := htakes.ended hended
    by_cases hcomma : (inner .lowest state).2.current.kind = .mark .comma
    · have hround : RunsAt state 1
          (do
            let argument ← Unbounded.expression .lowest
            modify ParseState.shift
            return before ++ [argument])
          (do
            let argument ← inner .lowest
            modify ParseState.shift
            return before ++ [argument])
          fun parsed kinds _ ↦ ∃ argument front, parsed = before ++ [argument] ∧
            kinds = front ++ [.mark .comma] ∧
            Spells (.expression .lowest argument) front (.mark .comma) := by
        have hshift := RunsAt.shift hended' (hcomma ▸ by decide)
        refine RunsAt.mono (hargument.bindAt (hshift.bindAt (.pure _ _))) ?_ ?_
        · exact Nat.le_refl 1
        · rintro _ _ next ⟨front, _, rfl, hfront, _, _, rfl, rfl, rfl, rfl⟩
          rw [hcomma] at hfront ⊢
          exact ⟨_, front, rfl, rfl, hfront⟩
      refine ((hround.bind hended hlimit ih).mono (Nat.zero_le _) ?_).yield ?_ ?_
      · rintro parsed _ next ⟨_, _, back, rfl, ⟨argument, front, rfl, rfl, hfront⟩, hback⟩
        rw [List.append_assoc]
        exact .argument hfront hback
      · rw [Unbounded.arguments_of_more hstop, Unbounded.bind_of_eq hends,
          Unbounded.lift_bind_apply, sees_apply, if_pos (decide_eq_true hcomma),
          Unbounded.bind_of_eq hround.1]
        rfl
      · rw [bind_apply, current_apply, if_neg hstop, bind_apply, bind_apply, sees_apply,
          if_pos (decide_eq_true hcomma)]
        rfl
    · have hlast : RunsAt state 0
          (do
            let argument ← Unbounded.expression .lowest
            return before ++ [argument])
          (do
            let argument ← inner .lowest
            return before ++ [argument])
          fun parsed kinds next ↦ Spells (.arguments before parsed) kinds next := by
        refine ⟨?_, taken, hleast, htakes, fun hclean ↦ ?_⟩
        · rw [Unbounded.bind_of_eq hends]
          rfl
        · exact .lastArgument before (hspells hclean) hcomma
      refine hlast.done ?_ ?_
      · rw [Unbounded.arguments_of_more hstop, Unbounded.bind_of_eq hends,
          Unbounded.lift_bind_apply, sees_apply, if_neg (by simpa using hcomma),
          Unbounded.bind_of_eq hends]
      · rw [bind_apply, current_apply, if_neg hstop, bind_apply, bind_apply, sees_apply,
          if_neg (by simpa using hcomma)]
        rfl

theorem call_runs (callee : Expr) (span : Span) :
    Runs limit (Unbounded.extension (.mark .openParen) callee span) (call inner limit callee)
      fun whole kinds next ↦ Spells (.extension (.mark .openParen) callee whole) kinds next := by
  rw [Unbounded.extension, Unbounded.ExprRule.parse]
  refine ((arguments_runs hinner).bind fun parsed ↦ (require_runs limit (by decide) _).bind fun _ ↦
    .pure limit _).mono ?_
  rintro _ _ next ⟨parsed, kinds, _, rfl, hparsed, _, _, _, rfl, rfl, rfl, rfl⟩
  exact .call hparsed

theorem choice_runs (condition : Expr) (span : Span) :
    Runs limit (Unbounded.extension (.keyword .choose) condition span) (choice inner condition)
      fun whole kinds next ↦ Spells (.extension (.keyword .choose) condition whole) kinds next := by
  rw [Unbounded.extension, Unbounded.ExprRule.parse]
  refine ((require_runs limit (by decide) _).bind fun _ ↦ (hinner .lowest).bind fun whenTrue ↦
    (require_runs limit (by decide) _).bind fun _ ↦ (require_runs limit (by decide) _).bind fun _ ↦
    (require_runs limit (by decide) _).bind fun _ ↦ (hinner .lowest).bind fun whenFalse ↦
    .pure limit _).mono ?_
  rintro _ _ next ⟨_, _, _, rfl, rfl, whenTrue, kinds, _, rfl, hfirst, _, _, _, rfl, rfl, _, _, _,
    rfl, rfl, _, _, _, rfl, rfl, whenFalse, more, _, rfl, hsecond, rfl, rfl⟩
  rw [List.append_nil]
  exact .choice hfirst hsecond

theorem assignment_runs (target : Expr) (span : Span) :
    Runs limit (Unbounded.extension (.keyword .become) target span) (assignment inner target span)
      fun whole kinds next ↦ Spells (.extension (.keyword .become) target whole) kinds next := by
  rw [Unbounded.extension, Unbounded.ExprRule.parse]
  have hvalue := (hinner .lowest).bind fun value ↦ Runs.pure limit (Expr.assign target value)
  unfold assignment
  by_cases htarget : target.isTarget = true
  · rw [if_pos htarget, if_pos htarget]
    refine hvalue.mono ?_
    rintro _ _ next ⟨value, kinds, _, rfl, hkinds, rfl, rfl⟩
    rw [List.append_nil]
    exact .assign htarget hkinds
  · rw [if_neg htarget, if_neg htarget]
    refine Runs.mono (Runs.bind (fun _ _ _ ↦ .report _ _ fun _ _ _ ↦ False) fun _ ↦ hvalue) ?_
    rintro _ _ next ⟨_, _, _, -, hfalse, -⟩
    exact hfalse.elim

theorem binary_runs {symbol : Symbol} {op : BinaryOp} (hop : BinaryOp.ofSymbol? symbol = some op)
    (left : Expr) (span : Span) :
    Runs limit (Unbounded.extension (.symbol symbol) left span) (binary inner op left)
      fun whole kinds next ↦ Spells (.extension (.symbol symbol) left whole) kinds next := by
  rw [Unbounded.extension_of_ofSymbol? hop]
  refine ((hinner op.precedence.tighter).bind fun right ↦ .pure limit _).mono ?_
  rintro _ _ next ⟨right, kinds, _, rfl, hkinds, rfl, rfl⟩
  rw [List.append_nil]
  exact .binary hop hkinds

/-- A token that goes on with an expression has a continuation that binds tightly enough. -/
theorem continuation?_runs {minimum : Precedence} {kind : TokenKind}
    (hgoes : continues minimum kind = true) :
    ∃ continuation, continuation? inner limit kind = some continuation ∧
      minimum ≤ continuation.precedence ∧
      ∀ left span, Runs limit (Unbounded.extension kind left span) (continuation.parse left span)
        fun whole kinds next ↦ Spells (.extension kind left whole) kinds next := by
  unfold continues at hgoes
  split at hgoes
  · exact ⟨_, rfl, of_decide_eq_true hgoes, call_runs hinner⟩
  · exact ⟨_, rfl, of_decide_eq_true hgoes, choice_runs hinner⟩
  · exact ⟨_, rfl, of_decide_eq_true hgoes, assignment_runs hinner⟩
  · obtain ⟨op, hop, hminimum⟩ := (Option.any_eq_true _ _).1 hgoes
    exact ⟨_, continuation?_of_ofSymbol? hop inner limit, of_decide_eq_true hminimum,
      binary_runs hinner hop⟩
  · cases hgoes

theorem continuations_runs (minimum : Precedence) (operand : Expr) :
    Runs limit (Unbounded.continuations minimum operand) (continuations inner limit minimum operand)
      fun whole kinds next ↦ Spells (.continuations minimum operand whole) kinds next := by
  refine iterate_runs (Unbounded.continuations minimum)
    (fun left whole kinds next ↦ Spells (.continuations minimum left whole) kinds next)
    (Nat.le_refl limit) (fun tokens rounds htokens ih left state hended hlimit ↦ ?_) operand
  cases hgoes : continues minimum state.current.kind with
  | false =>
    have hpure : RunsAt state 0 (pure left) (pure left)
        fun whole kinds next ↦ Spells (.continuations minimum left whole) kinds next :=
      ⟨rfl, [], Nat.le_refl 0, .refl, fun _ ↦ .operandEnd left hgoes⟩
    refine hpure.done (Unbounded.continuations_of_stop hgoes left) ?_
    rw [bind_apply, current_apply]
    cases hcontinuation : continuation? inner limit state.current.kind with
    | none => rfl
    | some continuation =>
      change (if minimum ≤ continuation.precedence then _ else _ : Parser _) state = _
      rw [if_neg (not_le_of_continuation? hgoes hcontinuation)]
      rfl
  | true =>
    obtain ⟨continuation, hcontinuation, hminimum, hextension⟩ := continuation?_runs hinner hgoes
    have hcurrent : state.current.kind ≠ .eof := by
      intro hkind
      rw [hkind] at hgoes
      cases hgoes
    have hround := (RunsAt.shift hended hcurrent).bind hended
      (Nat.lt_trans hlimit (Nat.succ_lt_succ htokens)) fun _ ↦ hextension left state.current.span
    refine ((hround.bind hended hlimit ih).mono (Nat.zero_le _) ?_).yield ?_ ?_
    · rintro whole _ next ⟨middle, _, back, rfl, ⟨_, _, kinds, rfl, rfl, hkinds⟩, hback⟩
      exact .operator hgoes hkinds hback
    · rw [Unbounded.continuations_of_continues hgoes]
      rfl
    · rw [bind_apply, current_apply, hcontinuation]
      change (if minimum ≤ continuation.precedence then _ else _ : Parser _) state = _
      rw [if_pos hminimum]
      rfl

end Inner

/-- Whatever follows, an expression takes a token, unless it begins with one at which reading goes
on after a problem. -/
theorem expressionWithin_runsAt (limit : Nat) (minimum : Precedence) {state : ParseState}
    (hended : state.Ended) (hlimit : state.remaining < limit) :
    RunsAt state (if isRestart state.current.kind then 0 else 1) (Unbounded.expression minimum)
      (expressionWithin limit minimum)
      fun value kinds next ↦ Spells (.expression minimum value) kinds next := by
  induction limit generalizing minimum state with
  | zero => exact absurd hlimit (Nat.not_lt_zero _)
  | succ limit ih =>
    have hinner (minimum : Precedence) :
        Runs limit (Unbounded.expression minimum) (expressionWithin limit minimum)
          fun value kinds next ↦ Spells (.expression minimum value) kinds next :=
      fun state hended hlimit ↦ (ih minimum hended hlimit).mono (Nat.zero_le _) fun _ _ _ h ↦ h
    by_cases hopens : opens state.current.kind = true
    · obtain ⟨rest, hrest, hoperand⟩ := opening?_runs hinner hopens
      have hcurrent : state.current.kind ≠ .eof := by
        intro hkind
        rw [hkind] at hopens
        cases hopens
      have hrun := (RunsAt.shift hended hcurrent).bind hended hlimit fun _ ↦
        hoperand.bind fun left ↦ continuations_runs hinner minimum left
      refine (hrun.mono ?_ ?_).congr (Unbounded.expression_of_opens hopens minimum) ?_
      · split <;> decide
      · rintro value _ next ⟨_, _, _, rfl, rfl, left, kinds, more, rfl, hkinds, hmore⟩
        change Spells _ (state.current.kind :: (kinds ++ more)) next
        exact .expression hopens hkinds hmore
      · rw [expressionWithin, bind_apply, current_apply, hrest]
    · have hopens : opens state.current.kind = false := eq_false_of_ne_true hopens
      refine (giveUp_runsAt _ _ _ hended _).congr
        (Unbounded.expression_of_not_opens hopens minimum) ?_
      rw [expressionWithin, bind_apply, current_apply, opening?_of_not_opens hopens]

theorem expressionWithin_runs (limit : Nat) (minimum : Precedence) :
    Runs limit (Unbounded.expression minimum) (expressionWithin limit minimum)
      fun value kinds next ↦ Spells (.expression minimum value) kinds next :=
  fun _ hended hlimit ↦
    (expressionWithin_runsAt limit minimum hended hlimit).mono (Nat.zero_le _) fun _ _ _ h ↦ h

end Parser

end Slang
