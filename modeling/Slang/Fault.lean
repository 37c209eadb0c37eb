import Slang.Program
import Slang.Value

/-!
# Faults of a running program

One constructor for each way in which a running program can fail, its class and its wording. Every
fault can be caught by a handler, which sees the wording.
-/

namespace Slang

inductive Fault where
  | undefinedVariable (name : String)
  | alreadyDefined (name : String)
  /-- An assignment to something other than a variable. -/
  | notAVariable
  /-- A `dip` that no loop, switch or attempt encloses. -/
  | strayLeave
  /-- A value thrown by the program, as it is printed. -/
  | thrown (text : String)
  /-- A printed line was refused. -/
  | output (message : String)
  | unsupportedOperands (op : BinaryOp) (left right : Value)
  | unsupportedOperand (op : UnaryOp) (operand : Value)
  /-- A part of the program that could not be read was reached. -/
  | brokenProgram
  /-- A declaration without any frame to hold it. -/
  | noFrame
  deriving Repr, DecidableEq

namespace Fault

/-- Who is to blame: the scoping and control flow of the program, a throw, the receiver of printed
lines, or an operation that has no rule. -/
inductive Class where
  | runtime | thrown | output | internal
  deriving Repr, DecidableEq

def toClass : Fault → Class
  | undefinedVariable _ | alreadyDefined _ | notAVariable | strayLeave => .runtime
  | thrown _ => .thrown
  | output _ => .output
  | unsupportedOperands _ _ _ | unsupportedOperand _ _ | brokenProgram | noFrame => .internal

def message : Fault → String
  | undefinedVariable name => "Variable " ++ name ++ " doesn't exist."
  | alreadyDefined name => "Variable " ++ name ++ " already exists in the current scope"
  | notAVariable => "Cannot assign to non-variable"
  | strayLeave => "Tried to break in non-loop context"
  | thrown text => text
  | output text => text
  | unsupportedOperands op left right =>
    "Internal error: Unsupported operands for " ++ op.text ++ ": " ++ left.typeName ++ " and " ++
      right.typeName
  | unsupportedOperand op operand =>
    "Internal error: Unsupported operand for unary " ++ op.text ++ ": " ++ operand.typeName
  | brokenProgram => "Internal error: Tried to walk an error node"
  | noFrame => "Internal error: no frame to declare a variable in"

end Fault

end Slang
