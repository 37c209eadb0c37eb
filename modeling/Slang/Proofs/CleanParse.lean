import Slang.Parse.Statement
import Slang.Proofs.TreeInduction

/-!
# What a parse without diagnostics gives

Diagnostics are only ever added while a text is read, so a parse that ends without any went through
no state that had one. `Cleanly` says this of a parser together with what its result then satisfies,
and passes through sequences and iterations. The condition treated here is the place of
declarations: they stand directly in a program, a body in braces or a handler, and never where a
single statement or an arm of a switch is.
-/

namespace Slang

/-- Declarations stand directly in statement lists that open a frame of their own. -/
inductive Stmt.Placed : Stmt → Prop
  | expression (value : Expr) : Placed (.expression value)
  | declare (name : String) (value : Option Expr) : Placed (.declare name value)
  | block {statements : List Stmt} (inside : ∀ statement ∈ statements, Placed statement) :
    Placed (.block statements)
  | when (condition : Expr) {body : Stmt} {rest : Alternative}
      (direct : body.isDeclaration = false) (inside : Placed body)
      (restDirect : ∀ statement ∈ rest.branches, statement.isDeclaration = false)
      (restInside : ∀ statement ∈ rest.branches, Placed statement) :
    Placed (.when condition body rest)
  | loop (condition : Expr) {body : Stmt} (direct : body.isDeclaration = false)
      (inside : Placed body) : Placed (.loop condition body)
  | switch (subject : Expr) {arms : List (Arm Stmt)}
      (direct : ∀ arm ∈ arms, ∀ statement ∈ arm.statements, statement.isDeclaration = false)
      (inside : ∀ arm ∈ arms, ∀ statement ∈ arm.statements, Placed statement) :
    Placed (.switch subject arms)
  | leave : Placed .leave
  | attempt {body : List Stmt} (binding : String) {handler : List Stmt}
      (inside : ∀ statement ∈ body, Placed statement)
      (handlerInside : ∀ statement ∈ handler, Placed statement) :
    Placed (.attempt body binding handler)
  | throw (value : Expr) : Placed (.throw value)
  | print (value : Expr) : Placed (.print value)

namespace Parser

variable {Result Next : Type}

/-- If a parser ends without diagnostics, it began without any, and its result satisfies the
condition. -/
def Cleanly (parser : Parser Result) (condition : Result → Prop) : Prop :=
  ∀ state, (parser state).2.diagnostics = [] →
    state.diagnostics = [] ∧ condition (parser state).1

namespace Cleanly

theorem pure {result : Result} {condition : Result → Prop} (h : condition result) :
    Cleanly (Pure.pure result) condition :=
  fun _ hclean ↦ ⟨hclean, h⟩

/-- The condition of the first parser may be used for the second only in the end, when it is known
that nothing was reported. -/
theorem bind {first : Parser Result} {next : Result → Parser Next} {condition : Result → Prop}
    {final : Next → Prop} (hfirst : Cleanly first condition)
    (hnext : ∀ result, Cleanly (next result) fun after ↦ condition result → final after) :
    Cleanly (first >>= next) final := by
  intro state hclean
  obtain ⟨hmiddle, hfinal⟩ := hnext (first state).1 (first state).2 hclean
  obtain ⟨hbefore, hcondition⟩ := hfirst state hmiddle
  exact ⟨hbefore, hfinal hcondition⟩

theorem mono {parser : Parser Result} {condition weaker : Result → Prop}
    (h : Cleanly parser condition) (hweaker : ∀ result, condition result → weaker result) :
    Cleanly parser weaker := by
  intro state hclean
  obtain ⟨hbefore, hcondition⟩ := h state hclean
  exact ⟨hbefore, hweaker _ hcondition⟩

/-- A step whose result does not matter. -/
theorem andThen {first : Parser Result} {next : Result → Parser Next} {condition : Result → Prop}
    {final : Next → Prop} (hfirst : Cleanly first condition)
    (hnext : ∀ result, Cleanly (next result) final) : Cleanly (first >>= next) final :=
  hfirst.bind fun result ↦ (hnext result).mono fun _ h _ ↦ h

theorem iterate (invariant : Result → Prop) {step : Result → Parser (ForInStep Result)}
    (hstep : ∀ result, Cleanly (step result) fun outcome ↦
      invariant result → invariant outcome.value) (limit : Nat) {result : Result}
    (h : invariant result) : Cleanly (Parser.iterate step limit result) invariant := by
  -- A later round may not assume the invariant before it is known that nothing was reported.
  have hall (result : Result) : Cleanly (Parser.iterate step limit result) fun final ↦
      invariant result → invariant final := by
    induction limit generalizing result with
    | zero => exact .pure id
    | succ limit ih =>
      refine (hstep result).bind fun outcome ↦ ?_
      cases outcome with
      | done final => exact .pure id
      | yield next => exact (ih next).mono fun final hfinal hnext hresult ↦ hfinal (hnext hresult)
  exact (hall result).mono fun final hfinal ↦ hfinal h

end Cleanly

theorem report_cleanly (problem : Problem) (span : Span) (condition : Unit → Prop) :
    Cleanly (report problem span) condition := by
  intro state hclean
  exact absurd hclean (List.append_ne_nil_of_right_ne_nil _ (List.cons_ne_nil _ _))

theorem shift_cleanly : Cleanly (modify ParseState.shift : Parser PUnit) fun _ ↦ True := by
  intro state hclean
  change state.shift.diagnostics = [] at hclean
  refine ⟨?_, trivial⟩
  unfold ParseState.shift at hclean
  split at hclean
  · exact hclean
  · have hboth := (ParseState.diagnostics_absorb _ _).symm.trans hclean
    exact (List.append_eq_nil_iff.1 hboth).1

theorem skipWhile_cleanly (skip : TokenKind → Bool) :
    Cleanly (modify (ParseState.skipWhile skip) : Parser PUnit) fun _ ↦ True := by
  intro state hclean
  refine ⟨?_, trivial⟩
  change (state.skipWithin skip state.upcoming).diagnostics = [] at hclean
  generalize state.upcoming = lexemes at hclean
  induction lexemes generalizing state with
  | nil => exact hclean
  | cons lexeme lexemes ih =>
    rw [ParseState.skipWithin] at hclean
    split at hclean
    · exact (shift_cleanly state (ih state.shift hclean)).1
    · exact hclean

theorem current_cleanly : Cleanly current fun _ ↦ True :=
  fun _ hclean ↦ ⟨hclean, trivial⟩

theorem advance_cleanly : Cleanly advance fun _ ↦ True :=
  current_cleanly.andThen fun _ ↦ shift_cleanly.andThen fun _ ↦ .pure trivial

theorem sees_cleanly (kind : TokenKind) : Cleanly (sees kind) fun _ ↦ True :=
  current_cleanly.andThen fun _ ↦ .pure trivial

theorem require_cleanly (kind : TokenKind) (problem : Problem) :
    Cleanly (require kind problem) fun _ ↦ True := by
  refine current_cleanly.andThen fun token ↦ ?_
  split
  · exact shift_cleanly
  · exact report_cleanly _ _ _

theorem expect_cleanly (kind : TokenKind) (problem : Problem) :
    Cleanly (expect kind problem) fun _ ↦ True := by
  refine advance_cleanly.andThen fun token ↦ ?_
  split
  · exact .pure trivial
  · exact report_cleanly _ _ _

theorem optional_cleanly (kind : TokenKind) : Cleanly (optional kind) fun _ ↦ True := by
  refine (sees_cleanly kind).andThen fun seen ↦ ?_
  split
  · exact shift_cleanly
  · exact .pure trivial

/-! ## Expressions -/

section Expressions

variable {inner : Inner} (hinner : ∀ minimum, Cleanly (inner minimum) fun _ ↦ True)
include hinner

theorem opening?_cleanly {kind : TokenKind} {rest : Parser Expr}
    (h : opening? inner kind = some rest) : Cleanly rest fun _ ↦ True := by
  have hsigned (op : UnaryOp) : Cleanly (signed inner op) fun _ ↦ True :=
    (hinner .sign).andThen fun _ ↦ .pure trivial
  have hgroup : Cleanly (group inner) fun _ ↦ True :=
    (hinner .lowest).andThen fun _ ↦ (require_cleanly _ _).andThen fun _ ↦ .pure trivial
  unfold opening? at h
  split at h <;> cases h
  · exact .pure trivial
  · exact .pure trivial
  · exact .pure trivial
  · exact hsigned .plus
  · exact hsigned .minus
  · exact hgroup

theorem choice_cleanly (condition : Expr) : Cleanly (choice inner condition) fun _ ↦ True := by
  refine (require_cleanly _ _).andThen fun _ ↦ (hinner .lowest).andThen fun whenTrue ↦ ?_
  refine (require_cleanly _ _).andThen fun _ ↦ (require_cleanly _ _).andThen fun _ ↦ ?_
  refine (require_cleanly _ _).andThen fun _ ↦ (hinner .lowest).andThen fun whenFalse ↦ ?_
  exact .pure trivial

theorem call_cleanly (limit : Nat) (callee : Expr) :
    Cleanly (call inner limit callee) fun _ ↦ True := by
  have harguments : Cleanly (arguments inner limit) fun _ ↦ True := by
    refine Cleanly.iterate _ (fun parsed ↦ current_cleanly.andThen fun token ↦ ?_) limit trivial
    split
    · exact .pure id
    · refine (hinner .lowest).andThen fun argument ↦ (sees_cleanly _).andThen fun seen ↦ ?_
      split
      · exact shift_cleanly.andThen fun _ ↦ .pure id
      · exact .pure id
  exact harguments.andThen fun _ ↦ (require_cleanly _ _).andThen fun _ ↦ .pure trivial

theorem assignment_cleanly (target : Expr) (span : Span) :
    Cleanly (assignment inner target span) fun _ ↦ True := by
  have hvalue : Cleanly (do return Expr.assign target (← inner .lowest)) fun _ ↦ True :=
    (hinner .lowest).andThen fun _ ↦ .pure trivial
  unfold assignment
  split
  · exact hvalue
  · exact (report_cleanly _ _ fun _ ↦ True).andThen fun _ ↦ hvalue

theorem continuation?_cleanly {limit : Nat} {kind : TokenKind} {continuation : Continuation}
    (h : continuation? inner limit kind = some continuation) (left : Expr) (span : Span) :
    Cleanly (continuation.parse left span) fun _ ↦ True := by
  unfold continuation? at h
  split at h
  · cases h
    exact call_cleanly hinner limit left
  · cases h
    exact choice_cleanly hinner left
  · cases h
    exact assignment_cleanly hinner left span
  · obtain ⟨op, -, rfl⟩ := Option.map_eq_some_iff.1 h
    exact (hinner _).andThen fun _ ↦ .pure trivial
  · cases h

theorem continuations_cleanly (limit : Nat) (minimum : Precedence) (operand : Expr) :
    Cleanly (continuations inner limit minimum operand) fun _ ↦ True := by
  refine Cleanly.iterate _ (fun left ↦ current_cleanly.andThen fun token ↦ ?_) limit trivial
  split
  · rename_i continuation hcontinuation
    split
    · refine shift_cleanly.andThen fun _ ↦ ?_
      exact (continuation?_cleanly hinner hcontinuation _ _).andThen fun _ ↦ .pure id
    · exact .pure id
  · exact .pure id

end Expressions

theorem expressionWithin_cleanly (limit : Nat) (minimum : Precedence) :
    Cleanly (expressionWithin limit minimum) fun _ ↦ True := by
  induction limit generalizing minimum with
  | zero => exact .pure trivial
  | succ limit ih =>
    refine current_cleanly.andThen fun token ↦ ?_
    split
    · rename_i rest hrest
      refine shift_cleanly.andThen fun _ ↦ (opening?_cleanly ih hrest).andThen fun operand ↦ ?_
      exact continuations_cleanly ih limit minimum operand
    · refine (report_cleanly _ _ fun _ ↦ True).andThen fun _ ↦ ?_
      exact (skipWhile_cleanly _).andThen fun _ ↦ .pure trivial

/-! ## Statements -/

theorem terminated_cleanly (limit : Nat) (statement : Terminated) :
    Cleanly (terminated limit statement) fun _ ↦ True := by
  refine (expressionWithin_cleanly limit .lowest).andThen fun value ↦ ?_
  have hend : Cleanly (terminate value statement) fun _ ↦ True := by
    unfold terminate
    split
    · exact optional_cleanly _
    · exact require_cleanly _ _
  exact hend.andThen fun _ ↦ .pure trivial

theorem declaration_cleanly (limit : Nat) : Cleanly (declaration limit) Stmt.Placed := by
  refine shift_cleanly.andThen fun _ ↦ advance_cleanly.andThen fun token ↦ ?_
  split
  · refine (sees_cleanly _).andThen fun seen ↦ ?_
    split
    · exact shift_cleanly.andThen fun _ ↦ .pure (.declare _ _)
    · refine (require_cleanly _ _).andThen fun _ ↦ ?_
      exact (terminated_cleanly limit .definition).andThen fun _ ↦ .pure (.declare _ _)
  · refine (report_cleanly _ _ fun _ ↦ True).andThen fun _ ↦ ?_
    exact (skipWhile_cleanly _).andThen fun _ ↦ .pure (.expression _)

section Statements

/-- Placed, and no declaration unless one is allowed. -/
def Allowed (mayDeclare : Bool) (statement : Stmt) : Prop :=
  statement.Placed ∧ (mayDeclare = false → statement.isDeclaration = false)

variable {statement : Bool → Parser Stmt} {limit : Nat}
  (hstatement : ∀ mayDeclare, Cleanly (statement mayDeclare) (Allowed mayDeclare))
include hstatement

theorem branch_cleanly : Cleanly (branch statement) (Allowed false) := by
  refine (skipWhile_cleanly _).andThen fun _ ↦ current_cleanly.andThen fun token ↦ ?_
  split
  · exact (report_cleanly _ _ fun _ ↦ True).andThen fun _ ↦ hstatement false
  · exact hstatement false

theorem guarded_cleanly (limit : Nat) :
    Cleanly (guarded statement limit) fun parsed ↦ Allowed false parsed.2 := by
  refine (require_cleanly _ _).andThen fun _ ↦ ?_
  refine (expressionWithin_cleanly limit .lowest).andThen fun condition ↦ ?_
  refine (require_cleanly _ _).andThen fun _ ↦ ?_
  exact (branch_cleanly hstatement).bind fun body ↦ .pure id

theorem alternative_cleanly (limit links : Nat) :
    Cleanly (alternative statement limit links) fun parsed ↦
      ∀ branch ∈ parsed.branches, Allowed false branch := by
  induction links with
  | zero => exact .pure (by simp [Alternative.branches])
  | succ links ih =>
    refine current_cleanly.andThen fun token ↦ ?_
    split
    · refine shift_cleanly.andThen fun _ ↦ (guarded_cleanly hstatement limit).bind fun parsed ↦ ?_
      refine ih.bind fun rest ↦ .pure fun hrest hbody ↦ ?_
      simpa [Alternative.branches] using ⟨hbody, hrest⟩
    · refine shift_cleanly.andThen fun _ ↦ (branch_cleanly hstatement).bind fun body ↦ ?_
      exact .pure fun hbody ↦ by simpa [Alternative.branches] using hbody
    · exact .pure (by simp [Alternative.branches])

end Statements

theorem statements_cleanly {statement : Parser Stmt} {condition : Stmt → Prop}
    (h : Cleanly statement condition) (ends : TokenKind → Bool) (limit : Nat) :
    Cleanly (statements statement ends limit) fun parsed ↦ ∀ next ∈ parsed, condition next := by
  refine Cleanly.iterate _ (fun parsed ↦ current_cleanly.andThen fun token ↦ ?_) limit (by simp)
  split
  · exact .pure id
  · refine h.bind fun next ↦ .pure fun hnext hparsed ↦ ?_
    change ∀ other ∈ (if next.isBroken then parsed else parsed ++ [next]), condition other
    split
    · exact hparsed
    · intro other hother
      rcases List.mem_append.1 hother with hother | hother
      · exact hparsed other hother
      · rwa [List.mem_singleton.1 hother]

theorem label_cleanly (limit : Nat) (front : Labels) :
    Cleanly (label limit front) fun _ ↦ True := by
  refine advance_cleanly.andThen fun token ↦ ?_
  have hcolon : Cleanly (do
      require (.mark .colon) .defaultWithoutColon
      return Labels.mk front.cases true true) fun _ ↦ True :=
    (require_cleanly _ _).andThen fun _ ↦ .pure trivial
  split
  · split
    · exact (report_cleanly _ _ fun _ ↦ True).andThen fun _ ↦ hcolon
    · exact hcolon
  · refine (expressionWithin_cleanly limit .lowest).andThen fun value ↦ ?_
    exact (require_cleanly _ _).andThen fun _ ↦ .pure trivial

theorem labels_cleanly (limit : Nat) (defaultSeen : Bool) :
    Cleanly (labels limit defaultSeen) fun _ ↦ True := by
  refine Cleanly.iterate _ (fun parsed ↦ current_cleanly.andThen fun token ↦ ?_) limit trivial
  split
  · exact (label_cleanly limit parsed).andThen fun _ ↦ .pure id
  · exact .pure id

theorem binding_cleanly : Cleanly binding fun _ ↦ True := by
  refine advance_cleanly.andThen fun token ↦ ?_
  split
  · exact .pure trivial
  · exact (report_cleanly _ _ fun _ ↦ True).andThen fun _ ↦ .pure trivial

section Constructs

variable {statement : Bool → Parser Stmt}
  (hstatement : ∀ mayDeclare, Cleanly (statement mayDeclare) (Allowed mayDeclare))
include hstatement

theorem body_cleanly (limit : Nat) :
    Cleanly (body statement limit) fun parsed ↦ ∀ next ∈ parsed, next.Placed := by
  refine (expect_cleanly _ _).andThen fun _ ↦ ?_
  refine (statements_cleanly (hstatement true) endsBody limit).bind fun parsed ↦ ?_
  exact (require_cleanly _ _).andThen fun _ ↦ .pure fun hparsed next hnext ↦ (hparsed next hnext).1

/-- Whatever may be declared, an arm that was read without reports has no declaration. -/
theorem armStatement_cleanly : Cleanly (armStatement statement) (Allowed false) := by
  refine current_cleanly.andThen fun start ↦ (hstatement true).bind fun parsed ↦ ?_
  split
  · exact (report_cleanly _ _ fun _ ↦ False).bind fun _ ↦ .pure fun hfalse ↦ hfalse.elim
  · rename_i hdirect
    exact .pure fun hparsed ↦ ⟨hparsed.1, fun _ ↦ eq_false_of_ne_true hdirect⟩

theorem arms_cleanly (limit : Nat) :
    Cleanly (arms statement limit) fun parsed ↦
      ∀ arm ∈ parsed, ∀ next ∈ arm.statements, Allowed false next := by
  refine Cleanly.bind (Cleanly.iterate
    (fun parsed ↦ ∀ arm ∈ parsed.1, ∀ next ∈ arm.statements, Allowed false next)
    (fun parsed ↦ current_cleanly.andThen fun token ↦ ?_) limit (by simp))
    fun parsed ↦ .pure id
  split
  · refine (labels_cleanly limit parsed.2).andThen fun front ↦ ?_
    refine (statements_cleanly (armStatement_cleanly hstatement) endsArm limit).bind
      fun behind ↦ .pure fun hbehind hparsed arm harm ↦ ?_
    rcases List.mem_append.1 harm with harm | harm
    · exact hparsed arm harm
    · rwa [List.mem_singleton.1 harm]
  · exact .pure id

theorem switch_cleanly (limit : Nat) : Cleanly (switch statement limit) (Allowed false) := by
  refine (expressionWithin_cleanly limit .lowest).andThen fun subject ↦ ?_
  refine (require_cleanly _ _).andThen fun _ ↦ (arms_cleanly hstatement limit).bind fun parsed ↦ ?_
  refine (require_cleanly _ _).andThen fun _ ↦ .pure fun hparsed ↦ ⟨?_, fun _ ↦ rfl⟩
  exact .switch subject (fun arm harm next hnext ↦ (hparsed arm harm next hnext).2 rfl)
    fun arm harm next hnext ↦ (hparsed arm harm next hnext).1

theorem attempt_cleanly (limit : Nat) : Cleanly (attempt statement limit) (Allowed false) := by
  have hbody := body_cleanly hstatement limit
  refine hbody.bind fun attempted ↦ (expect_cleanly _ _).andThen fun _ ↦ ?_
  refine (require_cleanly _ _).andThen fun _ ↦ binding_cleanly.andThen fun name ↦ ?_
  refine (require_cleanly _ _).andThen fun _ ↦ hbody.bind fun handler ↦ ?_
  exact .pure fun hhandler hattempted ↦ ⟨.attempt name hattempted hhandler, fun _ ↦ rfl⟩

theorem statementAt_cleanly (limit : Nat) (mayDeclare : Bool) (token : Token) :
    Cleanly (statementAt statement limit mayDeclare token) (Allowed mayDeclare) := by
  unfold statementAt
  split
  · exact .pure ⟨.expression _, fun _ ↦ rfl⟩
  · split
    · rename_i hmay
      refine (declaration_cleanly limit).mono fun parsed hparsed ↦ ⟨hparsed, fun hnot ↦ ?_⟩
      rw [hmay] at hnot
      cases hnot
    · exact (report_cleanly _ _ fun _ ↦ False).bind fun _ ↦
        (declaration_cleanly limit).mono fun parsed _ hfalse ↦ hfalse.elim
  · refine shift_cleanly.andThen fun _ ↦ (guarded_cleanly hstatement limit).bind fun parsed ↦ ?_
    refine (alternative_cleanly hstatement limit limit).bind fun rest ↦ .pure fun hrest hbody ↦ ?_
    refine ⟨.when _ (hbody.2 rfl) hbody.1 ?_ ?_, fun _ ↦ rfl⟩
    · exact fun next hnext ↦ (hrest next hnext).2 rfl
    · exact fun next hnext ↦ (hrest next hnext).1
  · refine shift_cleanly.andThen fun _ ↦ (guarded_cleanly hstatement limit).bind fun parsed ↦ ?_
    exact .pure fun hbody ↦ ⟨.loop _ (hbody.2 rfl) hbody.1, fun _ ↦ rfl⟩
  · refine shift_cleanly.andThen fun _ ↦ (terminated_cleanly limit .print).andThen fun value ↦ ?_
    exact .pure ⟨.print value, fun _ ↦ rfl⟩
  · refine shift_cleanly.andThen fun _ ↦ (switch_cleanly hstatement limit).mono ?_
    exact fun parsed hparsed ↦ ⟨hparsed.1, fun _ ↦ hparsed.2 rfl⟩
  · refine shift_cleanly.andThen fun _ ↦ (attempt_cleanly hstatement limit).mono ?_
    exact fun parsed hparsed ↦ ⟨hparsed.1, fun _ ↦ hparsed.2 rfl⟩
  · refine shift_cleanly.andThen fun _ ↦ (terminated_cleanly limit .throw).andThen fun value ↦ ?_
    exact .pure ⟨.throw value, fun _ ↦ rfl⟩
  · refine shift_cleanly.andThen fun _ ↦ (require_cleanly _ _).andThen fun _ ↦ ?_
    exact .pure ⟨.leave, fun _ ↦ rfl⟩
  · refine (body_cleanly hstatement limit).bind fun parsed ↦ ?_
    exact .pure fun hparsed ↦ ⟨.block hparsed, fun _ ↦ rfl⟩
  · refine (terminated_cleanly limit .expression).andThen fun value ↦ ?_
    exact .pure ⟨.expression value, fun _ ↦ rfl⟩

end Constructs

theorem statementWithin_cleanly (limit : Nat) (mayDeclare : Bool) :
    Cleanly (statementWithin limit mayDeclare) (Allowed mayDeclare) := by
  induction limit generalizing mayDeclare with
  | zero => exact .pure ⟨.expression _, fun _ ↦ rfl⟩
  | succ limit ih =>
    refine (skipWhile_cleanly _).andThen fun _ ↦ current_cleanly.andThen fun token ↦ ?_
    exact statementAt_cleanly ih (limit + 1) mayDeclare token

end Parser

/-- In a program that was read without reports, declarations stand only where they may. -/
theorem parse_placed {colors : Option Painter} {source : String}
    (h : (parse colors source).diagnostics = []) :
    ∀ statement ∈ (parse colors source).body, statement.Placed := by
  let state := ParseState.ofSource colors source
  have hstatements := Parser.statements_cleanly
    (Parser.statementWithin_cleanly (state.remaining + 1) true) (· = .eof) (state.remaining + 1)
  intro statement hmem
  exact ((hstatements state h).2 statement hmem).1

end Slang
