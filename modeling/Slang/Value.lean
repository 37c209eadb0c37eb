import Slang.Number.Format

/-!
# Values
-/

namespace Slang

inductive Value where
  | number (value : Float)
  | boolean (value : Bool)
  | text (contents : String)
  | null
  deriving Repr, DecidableEq, Inhabited

namespace Value

def typeName : Value → String
  | number _ => "number"
  | boolean _ => "boolean"
  | text _ => "string"
  | null => "null"

/-- Whether a value counts as true in a condition. Null, false, zero and the empty string do not. -/
def isTruthy : Value → Bool
  | number value => !(value == 0.0)
  | boolean value => value
  | text contents => !contents.isEmpty
  | null => false

/-- Equality of the language. Values of different types differ, and so does a value that is not a
number from itself. -/
def equals : Value → Value → Bool
  | number first, number second => first == second
  | boolean first, boolean second => first == second
  | text first, text second => first == second
  | null, null => true
  | _, _ => false

/-- A value as it is printed. -/
def display : Value → String
  | number value => Number.format value
  | boolean true => "true"
  | boolean false => "false"
  | text contents => contents
  | null => "null"

end Value

end Slang
