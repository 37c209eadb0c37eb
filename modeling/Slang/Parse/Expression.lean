import Slang.Parse.State
import Slang.Program

/-!
# Parsing expressions

An expression begins with an operand and goes on with every operator that binds at least as
tightly as its surroundings ask. Each parser here takes the parser for expressions inside it as an
argument; `expressionWithin` ties the knot, with a limit on the depth that the number of tokens
left bounds.
-/

namespace Slang

/-- How tightly an operator binds, loosest first. -/
inductive Precedence where
  | lowest | assignment | call | choice | relation | equality | sum | product | sign
  deriving Repr, DecidableEq

namespace Precedence

def rank : Precedence → Nat
  | lowest => 0
  | assignment => 1
  | call => 2
  | choice => 3
  | relation => 4
  | equality => 5
  | sum => 6
  | product => 7
  | sign => 8

instance : LE Precedence := ⟨fun first second ↦ first.rank ≤ second.rank⟩

instance (first second : Precedence) : Decidable (first ≤ second) :=
  inferInstanceAs (Decidable (first.rank ≤ second.rank))

/-- One step tighter, as far as there is one. -/
def tighter : Precedence → Precedence
  | lowest => assignment
  | assignment => call
  | call => choice
  | choice => relation
  | relation => equality
  | equality => sum
  | sum => product
  | product => sign
  | sign => sign

end Precedence

def BinaryOp.precedence : BinaryOp → Precedence
  | add | subtract => .sum
  | multiply | divide => .product
  | equal | notEqual => .equality
  | less | greater | lessOrEqual | greaterOrEqual => .relation

/-- Whether an expression may stand on the left of an assignment. -/
def Expr.isTarget : Expr → Bool
  | identifier _ | assign _ _ => true
  | _ => false

namespace Parser

/-- A parser for the expressions inside another. -/
abbrev Inner := Precedence → Parser Expr

/-- A sign and its operand, behind the sign. -/
def signed (inner : Inner) (op : UnaryOp) : Parser Expr := do
  return .unary op (← inner .sign)

/-- An expression in parentheses, behind the opening one. -/
def group (inner : Inner) : Parser Expr := do
  let expr ← inner .lowest
  require (.mark .closeParen) .unclosedGroup
  return expr

/-- How an expression that begins with a token of this kind goes on behind that token. -/
def opening? (inner : Inner) : TokenKind → Option (Parser Expr)
  | .number value => some (pure (.number value))
  | .string contents => some (pure (.string contents))
  | .identifier name => some (pure (.identifier name))
  | .operator .plus => some (signed inner .plus)
  | .operator .minus => some (signed inner .minus)
  | .mark .openParen => some (group inner)
  | _ => none

/-- The right operand of a binary operator. Operators that bind equally group to the left. -/
def binary (inner : Inner) (op : BinaryOp) (left : Expr) : Parser Expr := do
  return .binary op left (← inner op.precedence.tighter)

/-- The two outcomes of a choice, behind its first keyword. -/
def choice (inner : Inner) (condition : Expr) : Parser Expr := do
  require (.operator .equals) .chooseWithoutEquals
  let whenTrue ← inner .lowest
  require (.mark .comma) .chooseWithoutComma
  require (.keyword .orElse) .chooseWithoutOrElse
  require (.operator .equals) .orElseWithoutEquals
  let whenFalse ← inner .lowest
  return .choice condition whenTrue whenFalse

/-- The arguments of a call up to the closing parenthesis. -/
def arguments (inner : Inner) (limit : Nat) : Parser (List Expr) :=
  iterate (fun parsed ↦ do
    let token ← current
    if token.kind = .mark .closeParen ∨ token.kind = .eof then return .done parsed
    else
      let argument ← inner .lowest
      if ← sees (.mark .comma) then
        modify ParseState.shift
        return .yield (parsed ++ [argument])
      else return .done (parsed ++ [argument])) limit []

def call (inner : Inner) (limit : Nat) (callee : Expr) : Parser Expr := do
  let parsed ← arguments inner limit
  require (.mark .closeParen) .unclosedCall
  return .call callee parsed

/-- The value of an assignment, behind its keyword, which stands at the given span. -/
def assignment (inner : Inner) (target : Expr) (span : Span) : Parser Expr := do
  if target.isTarget then pure () else report .assignmentTarget span
  return .assign target (← inner .lowest)

/-- How a token continues the expression on its left. -/
structure Continuation where
  precedence : Precedence
  /-- The rest, behind the token, given what is on its left and the token's span. -/
  parse : Expr → Span → Parser Expr

def continuation? (inner : Inner) (limit : Nat) : TokenKind → Option Continuation
  | .mark .openParen => some ⟨.call, fun callee _ ↦ call inner limit callee⟩
  | .keyword .choose => some ⟨.choice, fun condition _ ↦ choice inner condition⟩
  | .keyword .become => some ⟨.assignment, assignment inner⟩
  | .symbol symbol =>
    (BinaryOp.ofSymbol? symbol).map fun op ↦ ⟨op.precedence, fun left _ ↦ binary inner op left⟩
  | _ => none

/-- Takes in every operator that binds at least as tightly as `minimum`. -/
def continuations (inner : Inner) (limit : Nat) (minimum : Precedence) (operand : Expr) :
    Parser Expr :=
  iterate (fun left ↦ do
    let token ← current
    match continuation? inner limit token.kind with
    | some continuation =>
      if minimum ≤ continuation.precedence then
        modify ParseState.shift
        return .yield (← continuation.parse left token.span)
      else return .done left
    | none => return .done left) limit operand

/-- An expression of at most the given depth. It is broken if no operand is in view. -/
def expressionWithin : Nat → Precedence → Parser Expr
  | 0, _ => return .broken
  | limit + 1, minimum => do
    let token ← current
    match opening? (expressionWithin limit) token.kind with
    | some rest =>
      modify ParseState.shift
      let operand ← rest
      continuations (expressionWithin limit) limit minimum operand
    | none =>
      report (.unexpectedToken token.kind) token.span
      synchronize
      return .broken

/-- An expression whose operators bind at least as tightly as `minimum`. Each level of depth takes
a token, so the tokens left bound the depth. -/
def expression (minimum : Precedence) : Parser Expr := do
  expressionWithin ((← get).remaining + 1) minimum

end Parser

end Slang
