import Slang.Number.Format
import Slang.Token.Basic

/-!
# The token at the front of a text

Numerals, words, quoted strings, operators and marks are recognised on plain text, without
locations. `Shape.ofText` gives the kind of the token and the number of characters it takes.
-/

namespace Slang

/-- Digits with at most one point. -/
structure Numeral where
  whole : List Char
  /-- What follows the point, if there is a point. -/
  fraction : Option (List Char)
  deriving Repr, DecidableEq

namespace Numeral

/-- The longest numeral at the front of a text. -/
def ofText (text : List Char) : Numeral :=
  let whole := text.takeWhile Char.isDigit
  match text.drop whole.length with
  | '.' :: rest => ⟨whole, some (rest.takeWhile Char.isDigit)⟩
  | _ => ⟨whole, none⟩

def length (numeral : Numeral) : Nat :=
  match numeral.fraction with
  | some fraction => numeral.whole.length + 1 + fraction.length
  | none => numeral.whole.length

/-- The double nearest to the decimal that the numeral spells. -/
def value (numeral : Numeral) : Float :=
  let fraction := numeral.fraction.getD []
  Number.ofDecimal (Nat.ofDigitChars 10 (numeral.whole ++ fraction) 0) fraction.length

end Numeral

/-- A string literal behind its opening quote. -/
structure Quoted where
  contents : List Char
  /-- The characters up to and including the closing quote. -/
  length : Nat
  closed : Bool
  deriving Repr, DecidableEq

namespace Quoted

/-- One more character of contents in front, spelled with `width` characters. -/
def push (character : Char) (width : Nat) (rest : Quoted) : Quoted :=
  ⟨character :: rest.contents, width + rest.length, rest.closed⟩

/-- Reads a string literal behind its opening quote. A backslash is taken away in front of that
quote and is an ordinary character everywhere else. -/
def ofText (quote : Char) : List Char → Quoted
  | [] => ⟨[], 0, false⟩
  | [character] => if character = quote then ⟨[], 1, true⟩ else ⟨[character], 1, false⟩
  | character :: next :: text =>
    if character = quote then ⟨[], 1, true⟩
    else if character = '\\' ∧ next = quote then (ofText quote text).push quote 2
    else (ofText quote (next :: text)).push character 1

end Quoted

/-- The characters that words are made of. -/
def isWordCharacter (character : Char) : Bool :=
  character.isAlphanum || character == '_'

/-- A word as a keyword or as a name. -/
def TokenKind.ofWord (word : String) : TokenKind :=
  match Keyword.ofWord? word with
  | some reserved => .keyword reserved
  | none => .identifier word

/-- The symbol a character stands for on its own. -/
def Symbol.ofCharacter? : Char → Option Symbol
  | '+' => some (.operator .plus)
  | '-' => some (.operator .minus)
  | '*' => some (.operator .times)
  | '/' => some (.operator .divide)
  | '=' => some (.operator .equals)
  | '<' => some (.operator .less)
  | '>' => some (.operator .greater)
  | ',' => some (.mark .comma)
  | ':' => some (.mark .colon)
  | ';' => some (.mark .semicolon)
  | '(' => some (.mark .openParen)
  | ')' => some (.mark .closeParen)
  | '\x7b' => some (.mark .openBrace)
  | '\x7d' => some (.mark .closeBrace)
  | _ => none

/-- The kind and length of a token, and the quote that is missing if it is a string that runs to
the end of the text. -/
structure Shape where
  kind : TokenKind
  length : Nat
  missingQuote : Option Char := none
  deriving Repr, DecidableEq

namespace Shape

def ofQuoted (quote : Char) (quoted : Quoted) : Shape :=
  ⟨.string (String.ofList quoted.contents), quoted.length + 1,
    if quoted.closed then none else some quote⟩

/-- The token that begins with a character, given the text behind it. The character must not
begin trivia. -/
def ofText (first : Char) (rest : List Char) : Shape :=
  let text := first :: rest
  if first = '<' ∧ rest.head? = some '=' then ⟨.operator .lessOrEqual, 2, none⟩
  else if first = '>' ∧ rest.head? = some '=' then ⟨.operator .greaterOrEqual, 2, none⟩
  else if first = '"' ∨ first = '\'' then ofQuoted first (Quoted.ofText first rest)
  else if first.isDigit ∨ (first = '.' ∧ rest.head?.any Char.isDigit) then
    let numeral := Numeral.ofText text
    ⟨.number numeral.value, numeral.length, none⟩
  else if first.isAlpha ∨ first = '_' then
    let word := text.takeWhile isWordCharacter
    ⟨TokenKind.ofWord (String.ofList word), word.length, none⟩
  else
    match Symbol.ofCharacter? first with
    | some symbol => ⟨.symbol symbol, 1, none⟩
    | none => ⟨.bad, 1, none⟩

end Shape

end Slang
