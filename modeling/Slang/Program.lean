import Slang.Symbol

/-!
# Programs

Expressions and statements as trees. A place where no expression could be read holds
`Expr.broken`; programs without diagnostics have none.
-/

namespace Slang

inductive BinaryOp where
  | add | subtract | multiply | divide
  | equal | notEqual
  | less | greater | lessOrEqual | greaterOrEqual
  deriving Repr, DecidableEq

/-- How messages show an operator. -/
def BinaryOp.text : BinaryOp → String
  | add => "+"
  | subtract => "-"
  | multiply => "*"
  | divide => "/"
  | equal => "=="
  | notEqual => "!="
  | less => "<"
  | greater => ">"
  | lessOrEqual => "<="
  | greaterOrEqual => ">="

/-- The binary operator that a symbol spells. -/
def BinaryOp.ofSymbol? : Symbol → Option BinaryOp
  | .operator .plus => some add
  | .operator .minus => some subtract
  | .operator .times => some multiply
  | .operator .divide => some divide
  | .operator .less => some less
  | .operator .greater => some greater
  | .operator .lessOrEqual => some lessOrEqual
  | .operator .greaterOrEqual => some greaterOrEqual
  | .keyword .same => some equal
  | .keyword .differ => some notEqual
  | _ => none

inductive UnaryOp where
  | plus | minus
  deriving Repr, DecidableEq

def UnaryOp.text : UnaryOp → String
  | plus => "+"
  | minus => "-"

inductive Expr where
  | number (value : Float)
  | string (contents : String)
  | identifier (name : String)
  | unary (op : UnaryOp) (operand : Expr)
  | binary (op : BinaryOp) (left right : Expr)
  | choice (condition whenTrue whenFalse : Expr)
  | call (callee : Expr) (arguments : List Expr)
  | assign (target value : Expr)
  | broken
  deriving Repr, Inhabited

/-- Whether no expression could be read. -/
def Expr.isBroken : Expr → Bool
  | broken => true
  | _ => false

/-- Some labels of a switch and the statements behind them. -/
structure Arm (Statement : Type) where
  labels : List Expr
  /-- Whether the default label is one of the labels. -/
  isDefault : Bool
  statements : List Statement
  deriving Repr

mutual

inductive Stmt where
  | expression (value : Expr)
  | declare (name : String) (value : Option Expr)
  | block (statements : List Stmt)
  | when (condition : Expr) (body : Stmt) (rest : Alternative)
  | loop (condition : Expr) (body : Stmt)
  | switch (subject : Expr) (arms : List (Arm Stmt))
  | leave
  | attempt (body : List Stmt) (binding : String) (handler : List Stmt)
  | throw (value : Expr)
  | print (value : Expr)

/-- What happens when a condition fails. -/
inductive Alternative where
  | none
  | otherwise (body : Stmt)
  | elseWhen (condition : Expr) (body : Stmt) (rest : Alternative)

end

namespace Stmt

/-- A statement that could not be read. -/
@[match_pattern] abbrev broken : Stmt := expression .broken

instance : Inhabited Stmt := ⟨broken⟩

def isBroken : Stmt → Bool
  | broken => true
  | _ => false

def isDeclaration : Stmt → Bool
  | declare _ _ => true
  | _ => false

end Stmt

end Slang
