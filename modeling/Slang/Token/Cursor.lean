import Slang.Diagnostic
import Slang.Token.Shape
import Slang.Token.Trivia

/-!
# Cursors over a source text

A cursor is a place in a text and the text from there on. Reading a token moves it forward and may
report lexical problems; reading never stops before the end of the text, and from there on every
further token is `eof`.
-/

namespace Slang

structure Cursor where
  location : Location
  text : List Char
  deriving Repr, DecidableEq

/-- A token, what was reported while it was read, and where reading goes on. -/
structure Reading where
  token : Token
  reports : List Diagnostic
  next : Cursor
  deriving Repr, DecidableEq

namespace Cursor

def ofSource (source : String) : Cursor :=
  ⟨.start, source.toList⟩

def atEnd (cursor : Cursor) : Bool :=
  cursor.text.isEmpty

/-- Passes over a number of characters. -/
def advance (count : Nat) (cursor : Cursor) : Cursor :=
  ⟨cursor.location.after (cursor.text.take count), cursor.text.drop count⟩

theorem advance_append (location : Location) (first second : List Char) :
    (Cursor.mk location (first ++ second)).advance first.length =
      ⟨location.after first, second⟩ := by
  simp [advance]

/-- Passes over all that is left. -/
def toEnd (cursor : Cursor) : Cursor :=
  ⟨cursor.location.after cursor.text, []⟩

/-- The next characters as a span. -/
def span (length : Nat) (cursor : Cursor) : Span :=
  ⟨cursor.location, length⟩

/-- The end of the text, found by a cursor that stands there. -/
def readEnd (cursor : Cursor) (reports : List Diagnostic) : Reading :=
  ⟨⟨.eof, cursor.span 1⟩, reports, cursor⟩

/-- What is wrong with a token that was just read. -/
def problems (start next : Cursor) (first : Char) (shape : Shape) : List Diagnostic :=
  match shape.missingQuote with
  | some quote => [⟨.unclosedString quote, next.span 1, .error⟩]
  | none =>
    if shape.kind = .bad then [⟨.unexpectedCharacter first, start.span 1, .error⟩] else []

/-- Reads one token, a bad character included. -/
def readRaw (cursor : Cursor) : Reading :=
  let start := cursor.advance (Trivia.length cursor.text)
  match start.text with
  | [] => start.readEnd []
  | '/' :: '*' :: _ => start.toEnd.readEnd [⟨.unclosedComment, start.span 2, .error⟩]
  | first :: rest =>
    let shape := Shape.ofText first rest
    let next := start.advance shape.length
    ⟨⟨shape.kind, start.span shape.length⟩, start.problems next first shape, next⟩

/-- Reads one token, passing over at most `limit` bad characters. -/
def readWithin : Nat → Cursor → Reading
  | 0, cursor => cursor.readRaw
  | limit + 1, cursor =>
    let raw := cursor.readRaw
    if raw.token.kind = .bad then
      let reading := readWithin limit raw.next
      ⟨reading.token, raw.reports ++ reading.reports, reading.next⟩
    else raw

/-- Reads one token, passing over bad characters. There are no more of those than characters. -/
def read (cursor : Cursor) : Reading :=
  cursor.readWithin cursor.text.length

end Cursor

/-- A token together with what was reported on the way to it. -/
structure Lexeme where
  token : Token
  reports : List Diagnostic
  deriving Repr, DecidableEq

def Reading.lexeme (reading : Reading) : Lexeme :=
  ⟨reading.token, reading.reports⟩

namespace Cursor

/-- The lexemes from a cursor to the end of the text, at most `limit` after the first. -/
def lexemesWithin : Nat → Cursor → Lexeme × List Lexeme
  | 0, cursor => (cursor.readRaw.lexeme, [])
  | limit + 1, cursor =>
    let reading := cursor.readWithin (limit + 1)
    if reading.token.kind = .eof then (reading.lexeme, [])
    else
      let later := lexemesWithin limit reading.next
      (reading.lexeme, later.1 :: later.2)

/-- The lexemes from a cursor up to and including the end of the text. Every one but the last
takes up a character at least. -/
def lexemes (cursor : Cursor) : Lexeme × List Lexeme :=
  cursor.lexemesWithin cursor.text.length

/-- All tokens of a source text, the end included and bad characters left out. -/
def tokensOf (source : String) : List Token :=
  let all := (ofSource source).lexemes
  (all.1 :: all.2).map Lexeme.token

end Cursor

end Slang
