import Slang.Machine

/-!
# Evaluating expressions

Operands are evaluated from left to right. A call has the value of its callee; its arguments are
never evaluated.
-/

namespace Slang

/-- The value of a binary operator. Only equality accepts operands of any types; strings can be
added, and numbers have every operator. -/
def BinaryOp.apply (op : BinaryOp) (left right : Value) : Except Fault Value :=
  match op, left, right with
  | equal, left, right => .ok (.boolean (left.equals right))
  | notEqual, left, right => .ok (.boolean (!left.equals right))
  | add, .number first, .number second => .ok (.number (first + second))
  | subtract, .number first, .number second => .ok (.number (first - second))
  | multiply, .number first, .number second => .ok (.number (first * second))
  | divide, .number first, .number second => .ok (.number (first / second))
  | less, .number first, .number second => .ok (.boolean (first < second))
  | greater, .number first, .number second => .ok (.boolean (first > second))
  | lessOrEqual, .number first, .number second => .ok (.boolean (first ≤ second))
  | greaterOrEqual, .number first, .number second => .ok (.boolean (first ≥ second))
  | add, .text first, .text second => .ok (.text (first ++ second))
  | op, left, right => .error (.unsupportedOperands op left right)

def UnaryOp.apply (op : UnaryOp) (operand : Value) : Except Fault Value :=
  match op, operand with
  | plus, .number value => .ok (.number value)
  | minus, .number value => .ok (.number (-value))
  | op, operand => .error (.unsupportedOperand op operand)

namespace Eval

def ofExcept {Result : Type} : Except Fault Result → Eval Result
  | .ok result => return result
  | .error fault => fail fault

/-- The value of a variable. -/
def lookup (name : String) : Eval Value := do
  match (← get).scopes.get? name with
  | some value => return value
  | none => fail (.undefinedVariable name)

end Eval

/-- The value of an expression. -/
def Expr.eval : Expr → Eval Value
  | number value => return .number value
  | string contents => return .text contents
  | identifier name => Eval.lookup name
  | unary op operand => do
    Eval.ofExcept (op.apply (← operand.eval))
  | binary op left right => do
    let first ← left.eval
    let second ← right.eval
    Eval.ofExcept (op.apply first second)
  | choice condition whenTrue whenFalse => do
    if (← condition.eval).isTruthy then whenTrue.eval else whenFalse.eval
  | call callee _ => callee.eval
  | assign (identifier name) value => do
    let result ← value.eval
    Eval.tryScopes (Scopes.assign name result)
    return result
  | assign _ _ => Eval.fail .notAVariable
  | broken => Eval.fail .brokenProgram

/-- Whether an expression holds as a condition. -/
def Expr.test (condition : Expr) : Eval Bool := do
  return (← condition.eval).isTruthy

end Slang
