import Slang.Parse.Statement
import Slang.Proofs.TokenStream

/-!
# Parsing without limits

The parsers of expressions and statements again, with loops and descents that nothing bounds. They
are the least solutions of their equations, so a run that does not end has no result. Where and how
far they go is settled by the token in view alone; that every run ends is a theorem about them, and
not part of their definition.
-/

namespace Slang

/-- A parser that may run forever, and then has no result. -/
abbrev Unbounded := StateT ParseState Option

instance : MonadLift Parser Unbounded :=
  ⟨fun parser state ↦ some (parser state)⟩

/-! ## What the token in view decides -/

namespace Parser

/-- Whether an expression can begin with a token of this kind. -/
def opens : TokenKind → Bool
  | .number _ | .string _ | .identifier _ | .operator .plus | .operator .minus
  | .mark .openParen => true
  | _ => false

/-- Whether a token of this kind goes on with an expression on its left, where operators have to
bind at least as tightly as `minimum`. -/
def continues (minimum : Precedence) : TokenKind → Bool
  | .mark .openParen => minimum ≤ .call
  | .keyword .choose => minimum ≤ .choice
  | .keyword .become => minimum ≤ .assignment
  | .symbol symbol => (BinaryOp.ofSymbol? symbol).any (minimum ≤ ·.precedence)
  | _ => false

/-- Whether a conditional statement goes on at a token of this kind. -/
def isAlternative : TokenKind → Bool
  | .keyword .elseWhen | .keyword .otherwise => true
  | _ => false

/-- The statement lists of a program: the program itself, what stands in braces, and the arms of a
switch. -/
inductive Place where
  | program | braces | arm
  deriving Repr, DecidableEq

/-- The tokens at which a statement list ends. -/
def Place.ends : Place → TokenKind → Bool
  | program => (· = .eof)
  | braces => endsBody
  | arm => endsArm

end Parser

namespace Unbounded

open Parser

/-! ## Expressions -/

/-- The parsers of expressions and of their parts, and the loop that skips what is none, each with
what it gives. -/
inductive ExprRule : Type → Type
  | skipWhile (skip : TokenKind → Bool) : ExprRule Unit
  | expression (minimum : Precedence) : ExprRule Expr
  | operand (kind : TokenKind) : ExprRule Expr
  | extension (kind : TokenKind) (left : Expr) (span : Span) : ExprRule Expr
  | continuations (minimum : Precedence) (left : Expr) : ExprRule Expr
  | arguments (parsed : List Expr) : ExprRule (List Expr)

def ExprRule.parse {Result : Type} : ExprRule Result → Unbounded Result
  | .skipWhile skip => do
    let token ← current
    if skip token.kind then
      modify ParseState.shift
      skipWhile skip |>.parse
    else return ()
  | .expression minimum => do
    let token ← current
    if opens token.kind then
      modify ParseState.shift
      let left ← operand token.kind |>.parse
      continuations minimum left |>.parse
    else
      report (.unexpectedToken token.kind) token.span
      skipWhile (fun kind ↦ !isRestart kind) |>.parse
      return .broken
  | .operand kind =>
    match kind with
    | .number value => return .number value
    | .string contents => return .string contents
    | .identifier name => return .identifier name
    | .operator .plus => return .unary .plus (← expression .sign |>.parse)
    | .operator .minus => return .unary .minus (← expression .sign |>.parse)
    | .mark .openParen => do
      let inside ← expression .lowest |>.parse
      require (.mark .closeParen) .unclosedGroup
      return inside
    | _ => return .broken
  | .extension kind left span =>
    match kind with
    | .mark .openParen => do
      let parsed ← arguments [] |>.parse
      require (.mark .closeParen) .unclosedCall
      return .call left parsed
    | .keyword .choose => do
      require (.operator .equals) .chooseWithoutEquals
      let whenTrue ← expression .lowest |>.parse
      require (.mark .comma) .chooseWithoutComma
      require (.keyword .orElse) .chooseWithoutOrElse
      require (.operator .equals) .orElseWithoutEquals
      let whenFalse ← expression .lowest |>.parse
      return .choice left whenTrue whenFalse
    | .keyword .become => do
      if left.isTarget then pure () else report .assignmentTarget span
      return .assign left (← expression .lowest |>.parse)
    | .symbol symbol =>
      match BinaryOp.ofSymbol? symbol with
      | some op => return .binary op left (← expression op.precedence.tighter |>.parse)
      | none => return left
    | _ => return left
  | .continuations minimum left => do
    let token ← current
    if continues minimum token.kind then
      modify ParseState.shift
      let whole ← extension token.kind left token.span |>.parse
      continuations minimum whole |>.parse
    else return left
  | .arguments parsed => do
    let token ← current
    if token.kind = .mark .closeParen ∨ token.kind = .eof then return parsed
    else
      let argument ← expression .lowest |>.parse
      if ← sees (.mark .comma) then
        modify ParseState.shift
        arguments (parsed ++ [argument]) |>.parse
      else return parsed ++ [argument]
partial_fixpoint

/-- Takes tokens as long as they are to be skipped. -/
abbrev skipWhile (skip : TokenKind → Bool) : Unbounded Unit :=
  (ExprRule.skipWhile skip).parse

def synchronize : Unbounded Unit :=
  skipWhile fun kind ↦ !isRestart kind

def skipSemicolons : Unbounded Unit :=
  skipWhile (· = .mark .semicolon)

abbrev expression (minimum : Precedence) : Unbounded Expr :=
  (ExprRule.expression minimum).parse

/-- What begins with a token of the given kind, behind that token. -/
abbrev operand (kind : TokenKind) : Unbounded Expr :=
  (ExprRule.operand kind).parse

/-- What goes on with an expression by a token of the given kind, behind that token. -/
abbrev extension (kind : TokenKind) (left : Expr) (span : Span) : Unbounded Expr :=
  (ExprRule.extension kind left span).parse

abbrev continuations (minimum : Precedence) (left : Expr) : Unbounded Expr :=
  (ExprRule.continuations minimum left).parse

abbrev arguments (parsed : List Expr) : Unbounded (List Expr) :=
  (ExprRule.arguments parsed).parse

/-! ## Statements -/

def terminated (statement : Terminated) : Unbounded Expr := do
  let value ← expression .lowest
  terminate value statement
  return value

def declaration : Unbounded Stmt := do
  modify ParseState.shift
  let token ← advance
  match token.kind with
  | .identifier name =>
    if ← sees (.mark .semicolon) then
      modify ParseState.shift
      return .declare name none
    else
      require (.keyword .become) .declarationWithoutBecome
      return .declare name (some (← terminated .definition))
  | _ =>
    report .declarationWithoutName token.span
    synchronize
    return .broken

def label (labels : Labels) : Unbounded Labels := do
  let token ← advance
  if token.kind = .keyword .defaultLabel then
    if labels.defaultSeen then report .repeatedDefault token.span else pure ()
    require (.mark .colon) .defaultWithoutColon
    return ⟨labels.cases, true, true⟩
  else
    let value ← expression .lowest
    require (.mark .colon) .caseWithoutColon
    return ⟨labels.cases ++ [value], labels.isDefault, labels.defaultSeen⟩

/-- The parsers of statements and of their parts, each with what it gives. -/
inductive StmtRule : Type → Type
  | labels (parsed : Labels) : StmtRule Labels
  | statement (mayDeclare : Bool) : StmtRule Stmt
  | statementAt (mayDeclare : Bool) (token : Token) : StmtRule Stmt
  | branch : StmtRule Stmt
  | guarded : StmtRule (Expr × Stmt)
  | alternative : StmtRule Alternative
  | armStatement : StmtRule Stmt
  | statements (place : Place) (parsed : List Stmt) : StmtRule (List Stmt)
  | body : StmtRule (List Stmt)
  | arms (parsed : List (Arm Stmt) × Bool) : StmtRule (List (Arm Stmt) × Bool)
  | switch : StmtRule Stmt
  | attempt : StmtRule Stmt

def StmtRule.parse {Result : Type} : StmtRule Result → Unbounded Result
  | .labels parsed => do
    let token ← current
    if isLabel token.kind then
      let more ← label parsed
      labels more |>.parse
    else return parsed
  | .statement mayDeclare => do
    skipSemicolons
    let token ← current
    statementAt mayDeclare token |>.parse
  | .statementAt mayDeclare token =>
    match token.kind with
    | .eof => return .broken
    | .keyword .declare => do
      if mayDeclare then pure () else report .declarationInBranch token.span
      declaration
    | .keyword .when => do
      modify ParseState.shift
      let (condition, inside) ← guarded |>.parse
      return .when condition inside (← alternative |>.parse)
    | .keyword .loop => do
      modify ParseState.shift
      let (condition, inside) ← guarded |>.parse
      return .loop condition inside
    | .keyword .print => do
      modify ParseState.shift
      return .print (← terminated .print)
    | .keyword .switch => do
      modify ParseState.shift
      switch |>.parse
    | .keyword .attempt => do
      modify ParseState.shift
      attempt |>.parse
    | .keyword .throw => do
      modify ParseState.shift
      return .throw (← terminated .throw)
    | .keyword .leave => do
      modify ParseState.shift
      require (.mark .semicolon) (.unterminated .leave)
      return .leave
    | .mark .openBrace => return .block (← body |>.parse)
    | _ => return .expression (← terminated .expression)
  | .branch => do
    skipSemicolons
    let token ← current
    if token.kind = .eof then report .missingStatement token.span else pure ()
    statement false |>.parse
  | .guarded => do
    require (.mark .openParen) .unopenedCondition
    let condition ← expression .lowest
    require (.mark .closeParen) .unclosedCondition
    return (condition, ← branch |>.parse)
  | .alternative => do
    let token ← current
    match token.kind with
    | .keyword .elseWhen =>
      modify ParseState.shift
      let (condition, inside) ← guarded |>.parse
      return .elseWhen condition inside (← alternative |>.parse)
    | .keyword .otherwise =>
      modify ParseState.shift
      return .otherwise (← branch |>.parse)
    | _ => return .none
  | .armStatement => do
    let start ← current
    let parsed ← statement true |>.parse
    if parsed.isDeclaration then report .declarationInArm start.span else pure ()
    return parsed
  | .statements place parsed => do
    let token ← current
    if place.ends token.kind then return parsed
    else
      let next ← match place with
        | .arm => armStatement |>.parse
        | _ => statement true |>.parse
      statements place (if next.isBroken then parsed else parsed ++ [next]) |>.parse
  | .body => do
    expect (.mark .openBrace) .unopenedBody
    let parsed ← statements .braces [] |>.parse
    require (.mark .closeBrace) .unclosedBody
    return parsed
  | .arms parsed => do
    let token ← current
    if isLabel token.kind then
      let front ← labels ⟨[], false, parsed.2⟩ |>.parse
      let behind ← statements .arm [] |>.parse
      arms (parsed.1 ++ [⟨front.cases, front.isDefault, behind⟩], front.defaultSeen) |>.parse
    else return parsed
  | .switch => do
    let subject ← expression .lowest
    require (.mark .openBrace) .unopenedSwitch
    let parsed ← arms ([], false) |>.parse
    require (.mark .closeBrace) .unclosedSwitch
    return .switch subject parsed.1
  | .attempt => do
    let attempted ← body |>.parse
    expect (.keyword .rescue) .malformedRescue
    require (.mark .openParen) .malformedRescue
    let name ← binding
    require (.mark .closeParen) .malformedRescue
    return .attempt attempted name (← body |>.parse)
partial_fixpoint

abbrev labels (parsed : Labels) : Unbounded Labels :=
  (StmtRule.labels parsed).parse

abbrev statement (mayDeclare : Bool) : Unbounded Stmt :=
  (StmtRule.statement mayDeclare).parse

abbrev statementAt (mayDeclare : Bool) (token : Token) : Unbounded Stmt :=
  (StmtRule.statementAt mayDeclare token).parse

abbrev branch : Unbounded Stmt :=
  StmtRule.branch.parse

abbrev guarded : Unbounded (Expr × Stmt) :=
  StmtRule.guarded.parse

abbrev alternative : Unbounded Alternative :=
  StmtRule.alternative.parse

abbrev armStatement : Unbounded Stmt :=
  StmtRule.armStatement.parse

abbrev statements (place : Place) (parsed : List Stmt) : Unbounded (List Stmt) :=
  (StmtRule.statements place parsed).parse

abbrev body : Unbounded (List Stmt) :=
  StmtRule.body.parse

abbrev arms (parsed : List (Arm Stmt) × Bool) : Unbounded (List (Arm Stmt) × Bool) :=
  (StmtRule.arms parsed).parse

abbrev switch : Unbounded Stmt :=
  StmtRule.switch.parse

abbrev attempt : Unbounded Stmt :=
  StmtRule.attempt.parse

/-- A statement of a statement list. -/
def element : Place → Unbounded Stmt
  | .arm => armStatement
  | _ => statement true

/-- Reads statements to the end of the text and hands over what was recorded so far. -/
def program : Unbounded Parsed := do
  let body ← statements .program []
  modifyGet fun state ↦ (⟨body, state.diagnostics, state.report?⟩, state.handedOver)

/-! ## Single steps at a state -/

section Steps

variable {Result Next : Type} {state : ParseState}

theorem bind_of_eq {first : Unbounded Result} {outcome : Result × ParseState}
    (h : first state = some outcome) (next : Result → Unbounded Next) :
    (first >>= next) state = next outcome.1 outcome.2 := by
  change (first state).bind _ = _
  rw [h]
  rfl

theorem lift_bind_apply (first : Parser Result) (next : Result → Unbounded Next)
    (state : ParseState) :
    ((liftM first : Unbounded Result) >>= next) state = next (first state).1 (first state).2 := rfl

theorem modify_bind_apply (change : ParseState → ParseState) (next : PUnit → Unbounded Next)
    (state : ParseState) :
    ((modify change : Unbounded PUnit) >>= next) state = next () (change state) := rfl

theorem skipWhile_of_skip {skip : TokenKind → Bool} (h : skip state.current.kind = true) :
    skipWhile skip state = skipWhile skip state.shift := by
  conv =>
    lhs
    rw [skipWhile, ExprRule.parse, lift_bind_apply, current_apply, if_pos h, modify_bind_apply]

theorem skipWhile_of_stop {skip : TokenKind → Bool} (h : skip state.current.kind = false) :
    skipWhile skip state = some ((), state) := by
  rw [skipWhile, ExprRule.parse, lift_bind_apply, current_apply, if_neg (Bool.eq_false_iff.1 h)]
  rfl

theorem expression_of_opens (h : opens state.current.kind = true) (minimum : Precedence) :
    expression minimum state = (do
      let left ← operand state.current.kind
      continuations minimum left : Unbounded Expr) state.shift := by
  rw [expression, ExprRule.parse, lift_bind_apply, current_apply, if_pos h, modify_bind_apply]

theorem expression_of_not_opens (h : opens state.current.kind = false) (minimum : Precedence) :
    expression minimum state = (do
      report (.unexpectedToken state.current.kind) state.current.span
      synchronize
      return .broken : Unbounded Expr) state := by
  rw [expression, ExprRule.parse, lift_bind_apply, current_apply, if_neg (Bool.eq_false_iff.1 h)]
  rfl

theorem extension_of_ofSymbol? {symbol : Symbol} {op : BinaryOp}
    (h : BinaryOp.ofSymbol? symbol = some op) (left : Expr) (span : Span) :
    extension (.symbol symbol) left span =
      (do return .binary op left (← expression op.precedence.tighter)) := by
  unfold BinaryOp.ofSymbol? at h
  split at h <;> cases h <;> rw [extension, ExprRule.parse.eq_def] <;> rfl

theorem continuations_of_continues {minimum : Precedence}
    (h : continues minimum state.current.kind = true) (left : Expr) :
    continuations minimum left state = (do
      let whole ← extension state.current.kind left state.current.span
      continuations minimum whole : Unbounded Expr) state.shift := by
  rw [continuations, ExprRule.parse, lift_bind_apply, current_apply, if_pos h, modify_bind_apply]

theorem continuations_of_stop {minimum : Precedence}
    (h : continues minimum state.current.kind = false) (left : Expr) :
    continuations minimum left state = some (left, state) := by
  rw [continuations, ExprRule.parse, lift_bind_apply, current_apply, if_neg (Bool.eq_false_iff.1 h)]
  rfl

theorem arguments_of_stop
    (h : state.current.kind = .mark .closeParen ∨ state.current.kind = .eof)
    (parsed : List Expr) : arguments parsed state = some (parsed, state) := by
  rw [arguments, ExprRule.parse, lift_bind_apply, current_apply, if_pos h]
  rfl

theorem arguments_of_more
    (h : ¬(state.current.kind = .mark .closeParen ∨ state.current.kind = .eof))
    (parsed : List Expr) :
    arguments parsed state = (do
      let argument ← expression .lowest
      if ← sees (.mark .comma) then
        modify ParseState.shift
        arguments (parsed ++ [argument])
      else return parsed ++ [argument] : Unbounded (List Expr)) state := by
  rw [arguments, ExprRule.parse, lift_bind_apply, current_apply, if_neg h]

theorem labels_of_label (h : isLabel state.current.kind = true) (parsed : Labels) :
    labels parsed state = (label parsed >>= labels) state := by
  conv => lhs; rw [labels, StmtRule.parse, lift_bind_apply, current_apply, if_pos h]

theorem labels_of_stop (h : isLabel state.current.kind = false) (parsed : Labels) :
    labels parsed state = some (parsed, state) := by
  rw [labels, StmtRule.parse, lift_bind_apply, current_apply, if_neg (Bool.eq_false_iff.1 h)]
  rfl

theorem statement_of_semicolon (h : state.current.kind = .mark .semicolon) (mayDeclare : Bool) :
    statement mayDeclare state = statement mayDeclare state.shift := by
  rw [statement, StmtRule.parse]
  change (skipSemicolons state).bind _ = (skipSemicolons state.shift).bind _
  rw [skipSemicolons, skipWhile_of_skip (decide_eq_true h)]

theorem statement_of_ne_semicolon (h : state.current.kind ≠ .mark .semicolon)
    (mayDeclare : Bool) :
    statement mayDeclare state = statementAt mayDeclare state.current state := by
  have hskip : skipSemicolons state = some ((), state) :=
    skipWhile_of_stop (decide_eq_false h)
  rw [statement, StmtRule.parse, bind_of_eq hskip]
  rfl

theorem alternative_of_elseWhen (h : state.current.kind = .keyword .elseWhen) :
    alternative state = (do
      let (condition, body) ← guarded
      return .elseWhen condition body (← alternative) : Unbounded Alternative) state.shift := by
  conv => lhs; rw [alternative, StmtRule.parse, lift_bind_apply, current_apply, h]
  rfl

theorem alternative_of_otherwise (h : state.current.kind = .keyword .otherwise) :
    alternative state = (do return .otherwise (← branch) : Unbounded Alternative) state.shift := by
  rw [alternative, StmtRule.parse, lift_bind_apply, current_apply, h]
  rfl

theorem alternative_of_stop (h : isAlternative state.current.kind = false) :
    alternative state = some (.none, state) := by
  rw [alternative, StmtRule.parse, lift_bind_apply, current_apply]
  generalize state.current.kind = kind at h
  dsimp only
  split
  · cases h
  · cases h
  · rfl

theorem statements_of_ends {place : Place} (h : place.ends state.current.kind = true)
    (parsed : List Stmt) : statements place parsed state = some (parsed, state) := by
  rw [statements, StmtRule.parse, lift_bind_apply, current_apply, if_pos h]
  rfl

theorem statements_of_more {place : Place} (h : place.ends state.current.kind = false)
    (parsed : List Stmt) :
    statements place parsed state = (do
      let next ← element place
      statements place (if next.isBroken then parsed else parsed ++ [next]) :
      Unbounded (List Stmt)) state := by
  conv =>
    lhs
    rw [statements, StmtRule.parse, lift_bind_apply, current_apply,
      if_neg (Bool.eq_false_iff.1 h)]
  cases place <;> rfl

theorem arms_of_label (h : isLabel state.current.kind = true)
    (parsed : List (Arm Stmt) × Bool) :
    arms parsed state = (do
      let front ← labels ⟨[], false, parsed.2⟩
      let behind ← statements .arm []
      arms (parsed.1 ++ [⟨front.cases, front.isDefault, behind⟩], front.defaultSeen) :
      Unbounded (List (Arm Stmt) × Bool)) state := by
  conv => lhs; rw [arms, StmtRule.parse, lift_bind_apply, current_apply, if_pos h]

theorem arms_of_stop (h : isLabel state.current.kind = false)
    (parsed : List (Arm Stmt) × Bool) : arms parsed state = some (parsed, state) := by
  rw [arms, StmtRule.parse, lift_bind_apply, current_apply, if_neg (Bool.eq_false_iff.1 h)]
  rfl

end Steps

end Unbounded

end Slang
