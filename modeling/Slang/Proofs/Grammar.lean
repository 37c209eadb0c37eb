import Slang.Proofs.Unbounded

/-!
# The grammar of clean programs

`Spells phrase kinds next` says that tokens of the given kinds, with a token of the kind `next` in
view behind them, are read as a phrase without any report. There is a rule for each way to read on.
What stands behind a phrase is part of the relation because the parser looks one token ahead: an
operand ends where no operator goes on with it, and a conditional statement where no further branch
follows.
-/

namespace Slang

open Parser

/-- What a list of tokens can be read as. The phrases of loops have a part for what was read
before them. -/
inductive Phrase where
  | expression (minimum : Precedence) (value : Expr)
  /-- An operand behind its first token. -/
  | operand (kind : TokenKind) (value : Expr)
  /-- What goes on with the expression on its left, behind the first token. -/
  | extension (kind : TokenKind) (left whole : Expr)
  | continuations (minimum : Precedence) (left whole : Expr)
  | arguments (before after : List Expr)
  | statement (mayDeclare : Bool) (parsed : Stmt)
  | guarded (condition : Expr) (body : Stmt)
  | alternative (rest : Alternative)
  | statements (place : Place) (before after : List Stmt)
  | body (statements : List Stmt)
  | labels (before after : Labels)
  | arms (before after : List (Arm Stmt) × Bool)

/-- The token of a sign. -/
def UnaryOp.kind : UnaryOp → TokenKind
  | plus => .operator .plus
  | minus => .operator .minus

inductive Spells : Phrase → List TokenKind → TokenKind → Prop
  | expression {minimum : Precedence} {kind next : TokenKind} {left whole : Expr}
      {kinds more : List TokenKind} (first : opens kind = true)
      (operand : Spells (.operand kind left) kinds (more.headD next))
      (rest : Spells (.continuations minimum left whole) more next) :
    Spells (.expression minimum whole) (kind :: (kinds ++ more)) next
  | number (value : Float) (next : TokenKind) :
    Spells (.operand (.number value) (.number value)) [] next
  | string (contents : String) (next : TokenKind) :
    Spells (.operand (.string contents) (.string contents)) [] next
  | identifier (name : String) (next : TokenKind) :
    Spells (.operand (.identifier name) (.identifier name)) [] next
  | signed (op : UnaryOp) {operand : Expr} {kinds : List TokenKind} {next : TokenKind}
      (inside : Spells (.expression .sign operand) kinds next) :
    Spells (.operand op.kind (.unary op operand)) kinds next
  | group {value : Expr} {kinds : List TokenKind} {next : TokenKind}
      (inside : Spells (.expression .lowest value) kinds (.mark .closeParen)) :
    Spells (.operand (.mark .openParen) value) (kinds ++ [.mark .closeParen]) next
  | call {callee : Expr} {arguments : List Expr} {kinds : List TokenKind} {next : TokenKind}
      (inside : Spells (.arguments [] arguments) kinds (.mark .closeParen)) :
    Spells (.extension (.mark .openParen) callee (.call callee arguments))
      (kinds ++ [.mark .closeParen]) next
  | choice {condition whenTrue whenFalse : Expr} {kinds more : List TokenKind} {next : TokenKind}
      (first : Spells (.expression .lowest whenTrue) kinds (.mark .comma))
      (second : Spells (.expression .lowest whenFalse) more next) :
    Spells (.extension (.keyword .choose) condition (.choice condition whenTrue whenFalse))
      (.operator .equals :: (kinds ++ .mark .comma :: .keyword .orElse :: .operator .equals ::
        more)) next
  | assign {target value : Expr} {kinds : List TokenKind} {next : TokenKind}
      (assignable : target.isTarget = true)
      (inside : Spells (.expression .lowest value) kinds next) :
    Spells (.extension (.keyword .become) target (.assign target value)) kinds next
  | binary {symbol : Symbol} {op : BinaryOp} {left right : Expr} {kinds : List TokenKind}
      {next : TokenKind} (spelled : BinaryOp.ofSymbol? symbol = some op)
      (inside : Spells (.expression op.precedence.tighter right) kinds next) :
    Spells (.extension (.symbol symbol) left (.binary op left right)) kinds next
  | operandEnd {minimum : Precedence} {next : TokenKind} (left : Expr)
      (stop : continues minimum next = false) : Spells (.continuations minimum left left) [] next
  | operator {minimum : Precedence} {kind next : TokenKind} {left middle whole : Expr}
      {kinds more : List TokenKind} (goes : continues minimum kind = true)
      (extension : Spells (.extension kind left middle) kinds (more.headD next))
      (rest : Spells (.continuations minimum middle whole) more next) :
    Spells (.continuations minimum left whole) (kind :: (kinds ++ more)) next
  | argumentsEnd {next : TokenKind} (arguments : List Expr)
      (stop : next = .mark .closeParen ∨ next = .eof) :
    Spells (.arguments arguments arguments) [] next
  | lastArgument {next : TokenKind} {argument : Expr} {kinds : List TokenKind}
      (before : List Expr) (inside : Spells (.expression .lowest argument) kinds next)
      (stop : next ≠ .mark .comma) : Spells (.arguments before (before ++ [argument])) kinds next
  | argument {next : TokenKind} {argument : Expr} {before after : List Expr}
      {kinds more : List TokenKind}
      (inside : Spells (.expression .lowest argument) kinds (.mark .comma))
      (rest : Spells (.arguments (before ++ [argument]) after) more next) :
    Spells (.arguments before after) (kinds ++ .mark .comma :: more) next
  | semicolon {mayDeclare : Bool} {parsed : Stmt} {kinds : List TokenKind} {next : TokenKind}
      (behind : Spells (.statement mayDeclare parsed) kinds next) :
    Spells (.statement mayDeclare parsed) (.mark .semicolon :: kinds) next
  | evaluation (mayDeclare : Bool) {value : Expr} {kinds : List TokenKind} (next : TokenKind)
      (inside : Spells (.expression .lowest value) kinds (.mark .semicolon)) :
    Spells (.statement mayDeclare (.expression value)) (kinds ++ [.mark .semicolon]) next
  | declaration (name : String) (next : TokenKind) :
    Spells (.statement true (.declare name none))
      [.keyword .declare, .identifier name, .mark .semicolon] next
  | definition (name : String) {value : Expr} {kinds : List TokenKind} (next : TokenKind)
      (inside : Spells (.expression .lowest value) kinds (.mark .semicolon)) :
    Spells (.statement true (.declare name (some value)))
      (.keyword .declare :: .identifier name :: .keyword .become :: (kinds ++ [.mark .semicolon]))
      next
  | print (mayDeclare : Bool) {value : Expr} {kinds : List TokenKind} (next : TokenKind)
      (inside : Spells (.expression .lowest value) kinds (.mark .semicolon)) :
    Spells (.statement mayDeclare (.print value))
      (.keyword .print :: (kinds ++ [.mark .semicolon])) next
  | throw (mayDeclare : Bool) {value : Expr} {kinds : List TokenKind} (next : TokenKind)
      (inside : Spells (.expression .lowest value) kinds (.mark .semicolon)) :
    Spells (.statement mayDeclare (.throw value))
      (.keyword .throw :: (kinds ++ [.mark .semicolon])) next
  | leave (mayDeclare : Bool) (next : TokenKind) :
    Spells (.statement mayDeclare .leave) [.keyword .leave, .mark .semicolon] next
  | block (mayDeclare : Bool) {statements : List Stmt} {kinds : List TokenKind} {next : TokenKind}
      (inside : Spells (.body statements) kinds next) :
    Spells (.statement mayDeclare (.block statements)) kinds next
  | when (mayDeclare : Bool) {condition : Expr} {body : Stmt} {rest : Alternative}
      {kinds more : List TokenKind} {next : TokenKind}
      (first : Spells (.guarded condition body) kinds (more.headD next))
      (others : Spells (.alternative rest) more next) :
    Spells (.statement mayDeclare (.when condition body rest))
      (.keyword .when :: (kinds ++ more)) next
  | loop (mayDeclare : Bool) {condition : Expr} {body : Stmt} {kinds : List TokenKind}
      {next : TokenKind} (inside : Spells (.guarded condition body) kinds next) :
    Spells (.statement mayDeclare (.loop condition body)) (.keyword .loop :: kinds) next
  | switch (mayDeclare : Bool) {subject : Expr} {arms : List (Arm Stmt) × Bool}
      {kinds more : List TokenKind} (next : TokenKind)
      (front : Spells (.expression .lowest subject) kinds (.mark .openBrace))
      (inside : Spells (.arms ([], false) arms) more (.mark .closeBrace)) :
    Spells (.statement mayDeclare (.switch subject arms.1))
      (.keyword .switch :: (kinds ++ .mark .openBrace :: (more ++ [.mark .closeBrace]))) next
  | attempt (mayDeclare : Bool) {body handler : List Stmt} (binding : String)
      {kinds more : List TokenKind} {next : TokenKind}
      (inside : Spells (.body body) kinds (.keyword .rescue))
      (rescue : Spells (.body handler) more next) :
    Spells (.statement mayDeclare (.attempt body binding handler))
      (.keyword .attempt :: (kinds ++ .keyword .rescue :: .mark .openParen :: .identifier binding ::
        .mark .closeParen :: more)) next
  | guarded {condition : Expr} {body : Stmt} {kinds more : List TokenKind} {next : TokenKind}
      (test : Spells (.expression .lowest condition) kinds (.mark .closeParen))
      (branch : Spells (.statement false body) more next) :
    Spells (.guarded condition body)
      (.mark .openParen :: (kinds ++ .mark .closeParen :: more)) next
  | none {next : TokenKind} (stop : isAlternative next = false) :
    Spells (.alternative .none) [] next
  | otherwise {body : Stmt} {kinds : List TokenKind} {next : TokenKind}
      (branch : Spells (.statement false body) kinds next) :
    Spells (.alternative (.otherwise body)) (.keyword .otherwise :: kinds) next
  | elseWhen {condition : Expr} {body : Stmt} {rest : Alternative} {kinds more : List TokenKind}
      {next : TokenKind} (first : Spells (.guarded condition body) kinds (more.headD next))
      (others : Spells (.alternative rest) more next) :
    Spells (.alternative (.elseWhen condition body rest)) (.keyword .elseWhen :: (kinds ++ more))
      next
  | statementsEnd {place : Place} {next : TokenKind} (statements : List Stmt)
      (stop : place.ends next = true) : Spells (.statements place statements statements) [] next
  /-- Semicolons behind the last statement of a text. -/
  | semicolons (place : Place) (statements : List Stmt) (count : Nat) :
    Spells (.statements place statements statements)
      (List.replicate (count + 1) (.mark .semicolon)) .eof
  | statements {place : Place} {before after : List Stmt} {parsed : Stmt}
      {kinds more : List TokenKind} {next : TokenKind}
      (first : Spells (.statement true parsed) kinds (more.headD next))
      (direct : place = .arm → parsed.isDeclaration = false)
      (others : Spells (.statements place (before ++ [parsed]) after) more next) :
    Spells (.statements place before after) (kinds ++ more) next
  | body {statements : List Stmt} {kinds : List TokenKind} (next : TokenKind)
      (inside : Spells (.statements .braces [] statements) kinds (.mark .closeBrace)) :
    Spells (.body statements) (.mark .openBrace :: (kinds ++ [.mark .closeBrace])) next
  | labelsEnd {next : TokenKind} (labels : Labels) (stop : isLabel next = false) :
    Spells (.labels labels labels) [] next
  | caseLabel {cases : List Expr} {isDefault defaultSeen : Bool} {value : Expr} {after : Labels}
      {kinds more : List TokenKind} {next : TokenKind}
      (inside : Spells (.expression .lowest value) kinds (.mark .colon))
      (others : Spells (.labels ⟨cases ++ [value], isDefault, defaultSeen⟩ after) more next) :
    Spells (.labels ⟨cases, isDefault, defaultSeen⟩ after)
      (.keyword .caseLabel :: (kinds ++ .mark .colon :: more)) next
  | defaultLabel {cases : List Expr} {isDefault : Bool} {after : Labels} {more : List TokenKind}
      {next : TokenKind} (others : Spells (.labels ⟨cases, true, true⟩ after) more next) :
    Spells (.labels ⟨cases, isDefault, false⟩ after)
      (.keyword .defaultLabel :: .mark .colon :: more) next
  | armsEnd {next : TokenKind} (arms : List (Arm Stmt) × Bool) (stop : isLabel next = false) :
    Spells (.arms arms arms) [] next
  | arms {before after : List (Arm Stmt) × Bool} {front : Labels} {statements : List Stmt}
      {kind next : TokenKind} {kinds more others : List TokenKind} (first : isLabel kind = true)
      (labels : Spells (.labels ⟨[], false, before.2⟩ front) (kind :: kinds)
        ((more ++ others).headD next))
      (behind : Spells (.statements .arm [] statements) more (others.headD next))
      (rest : Spells (.arms (before.1 ++ [⟨front.cases, front.isDefault, statements⟩],
        front.defaultSeen) after) others next) :
    Spells (.arms before after) (kind :: (kinds ++ (more ++ others))) next

namespace Spells

/-- An expression begins with a token that can begin one. -/
theorem expression_first {minimum : Precedence} {value : Expr} {kinds : List TokenKind}
    {next : TokenKind} (h : Spells (.expression minimum value) kinds next) :
    ∃ kind more, kinds = kind :: more ∧ opens kind = true := by
  cases h with
  | expression first operand rest => exact ⟨_, _, rfl, first⟩

theorem body_first {statements : List Stmt} {kinds : List TokenKind} {next : TokenKind}
    (h : Spells (.body statements) kinds next) : ∃ more, kinds = .mark .openBrace :: more := by
  cases h with
  | body next inside => exact ⟨_, rfl⟩

/-- No statement begins with a token at which a statement list ends or a conditional statement
goes on. -/
theorem statement_first {mayDeclare : Bool} {parsed : Stmt} {kinds : List TokenKind}
    {next : TokenKind} (h : Spells (.statement mayDeclare parsed) kinds next) :
    ∃ kind more, kinds = kind :: more ∧ endsArm kind = false ∧ isAlternative kind = false := by
  cases h with
  | evaluation _ next inside =>
    obtain ⟨kind, more, rfl, hkind⟩ := inside.expression_first
    refine ⟨kind, _, rfl, ?_⟩
    unfold opens at hkind
    split at hkind <;> first | exact ⟨rfl, rfl⟩ | cases hkind
  | block _ inside =>
    obtain ⟨more, rfl⟩ := inside.body_first
    exact ⟨_, _, rfl, rfl, rfl⟩
  | _ => exact ⟨_, _, rfl, rfl, rfl⟩

theorem semicolons_append {mayDeclare : Bool} {parsed : Stmt} {front kinds : List TokenKind}
    {next : TokenKind} (h : Spells (.statement mayDeclare parsed) kinds next)
    (hfront : ∀ kind ∈ front, kind = .mark .semicolon) :
    Spells (.statement mayDeclare parsed) (front ++ kinds) next := by
  induction front with
  | nil => exact h
  | cons kind front ih =>
    obtain ⟨rfl, hmore⟩ := List.forall_mem_cons.1 hfront
    exact .semicolon (ih hmore)

/-- At the end of the text there is no further statement. -/
theorem statements_of_eof {place : Place} {before after : List Stmt} {kinds : List TokenKind}
    {next : TokenKind} (h : Spells (.statements place before after) kinds next)
    (heof : kinds.headD next = .eof) : after = before ∧ kinds = [] ∧ next = .eof := by
  cases h with
  | statementsEnd _ stop => exact ⟨rfl, rfl, heof⟩
  | semicolons _ _ count => cases heof
  | statements first direct others =>
    obtain ⟨kind, more, rfl, hkind, -⟩ := first.statement_first
    obtain rfl : kind = .eof := heof
    cases hkind

end Spells

end Slang
