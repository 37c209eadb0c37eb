/-!
# Blank characters

The characters that may stand between tokens: the twenty-five code points with the Unicode
property `White_Space`, kept as a table of inclusive ranges.
-/

namespace Slang.Text

/-- The code points with the property `White_Space`, as increasing inclusive ranges. -/
def blankRanges : List (Nat × Nat) :=
  [(0x9, 0xd), (0x20, 0x20), (0x85, 0x85), (0xa0, 0xa0), (0x1680, 0x1680), (0x2000, 0x200a),
    (0x2028, 0x2029), (0x202f, 0x202f), (0x205f, 0x205f), (0x3000, 0x3000)]

/-- Whether a character has the property `White_Space`. -/
def isBlank (character : Char) : Bool :=
  blankRanges.any fun range ↦ range.1 ≤ character.toNat && character.toNat ≤ range.2

example : (blankRanges.map fun range ↦ range.2 + 1 - range.1).sum = 25 := by decide

theorem isBlank_newline : isBlank '\n' = true := by decide

theorem isBlank_slash : isBlank '/' = false := by decide

/-- Every character that core counts as white space is blank. -/
theorem isBlank_of_isWhitespace {character : Char} (h : character.isWhitespace = true) :
    isBlank character = true := by
  simp only [Char.isWhitespace, Bool.or_eq_true, decide_eq_true_eq] at h
  rcases h with ((rfl | rfl) | rfl) | rfl <;> decide

end Slang.Text
