import Slang.Symbol
import Slang.Text.Location

/-!
# Tokens
-/

namespace Slang

/-- What a token is, without where it stands. -/
inductive TokenKind where
  | number (value : Float)
  | string (contents : String)
  | identifier (name : String)
  | symbol (sign : Symbol)
  | eof
  /-- A character that starts no token. -/
  | bad
  deriving Repr, DecidableEq

namespace TokenKind

@[match_pattern] abbrev keyword (word : Keyword) : TokenKind := .symbol (.keyword word)

@[match_pattern] abbrev operator (sign : Operator) : TokenKind := .symbol (.operator sign)

@[match_pattern] abbrev mark (sign : Mark) : TokenKind := .symbol (.mark sign)

/-- How messages call a token: a symbol by its spelling and any other token by its class. -/
def description : TokenKind → String
  | number _ => "number"
  | string _ => "string"
  | identifier _ => "identifier"
  | symbol sign => sign.spelling
  | eof => "EOF"
  | bad => "error"

end TokenKind

structure Token where
  kind : TokenKind
  span : Span
  deriving Repr, DecidableEq

end Slang
