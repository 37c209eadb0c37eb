import Slang.Text.Blank

/-!
# Trivia between tokens

Blanks, comments from `//` to the end of the line and comments between `/*` and `*/` separate
tokens and mean nothing. The text is walked once; a comment that is never closed is not trivia,
so the walk then answers with the place where that comment opens.
-/

namespace Slang

/-- What the walk over trivia is in the middle of. -/
inductive Trivia where
  | blank
  | lineComment
  /-- A block comment, and how many characters stand in front of it. -/
  | blockComment (before : Nat)
  deriving Repr, DecidableEq

namespace Trivia

/-- The length of the trivia at the front of a text, given what the walk is in the middle of and
how many characters it has passed. -/
def lengthFrom : Trivia → Nat → List Char → Nat
  | blank, passed, '/' :: '/' :: text => lengthFrom lineComment (passed + 2) text
  | blank, passed, '/' :: '*' :: text => lengthFrom (blockComment passed) (passed + 2) text
  | blank, passed, character :: text =>
    if Text.isBlank character then lengthFrom blank (passed + 1) text else passed
  | blank, passed, [] => passed
  | lineComment, passed, '\n' :: text => lengthFrom blank (passed + 1) text
  | lineComment, passed, _ :: text => lengthFrom lineComment (passed + 1) text
  | lineComment, passed, [] => passed
  | blockComment _, passed, '*' :: '/' :: text => lengthFrom blank (passed + 2) text
  | blockComment before, passed, _ :: text => lengthFrom (blockComment before) (passed + 1) text
  | blockComment before, _, [] => before

/-- The length of the trivia at the front of a text. If a block comment is left open, the trivia
ends in front of it. -/
def length (text : List Char) : Nat :=
  lengthFrom blank 0 text

example : length " // a\n /* b */ c".toList = 15 := by decide
example : length " /*/".toList = 1 := by decide

end Trivia

end Slang
