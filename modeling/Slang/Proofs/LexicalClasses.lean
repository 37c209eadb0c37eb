import Slang.Proofs.Rounding
import Slang.Proofs.WordBoundaries

/-!
# The classes of tokens

What each token looks like and what may stand next to it. Numerals and words are as long as they can
be, an operator of one character is not the front of a longer one or of a comment, and a bad
character is one that no token begins with. A numeral has the value of the double nearest to the
decimal that it spells.
-/

namespace Slang

namespace Numeral

/-- The number that digits stand for behind a decimal point. -/
def fractionNumber : List Char → ℚ
  | [] => 0
  | digit :: digits => ((digit.toNat - '0'.toNat : ℕ) + fractionNumber digits) / 10

/-- The number that a numeral spells. -/
def number (numeral : Numeral) : ℚ :=
  Nat.ofDigitChars 10 numeral.whole 0 + fractionNumber (numeral.fraction.getD [])

/-- At least one digit, and nothing but digits around the point. -/
structure IsWellFormed (numeral : Numeral) : Prop where
  isDigit : ∀ character ∈ numeral.digits, character.isDigit = true
  nonempty : numeral.digits ≠ []

theorem fractionNumber_eq (digits : List Char) :
    fractionNumber digits = (Nat.ofDigitChars 10 digits 0 : ℚ) / 10 ^ digits.length := by
  induction digits with
  | nil => simp [fractionNumber]
  | cons digit digits ih =>
    have hfirst : Nat.ofDigitChars 10 (digit :: digits) 0 =
        10 ^ digits.length * (digit.toNat - '0'.toNat) + Nat.ofDigitChars 10 digits 0 := by
      rw [Nat.ofDigitChars_cons, Nat.mul_zero, Nat.zero_add]
      exact Nat.ofDigitChars_eq_ofDigitChars_zero
    rw [fractionNumber, ih, hfirst, List.length_cons]
    generalize digit.toNat - '0'.toNat = first
    push_cast
    field_simp
    ring

theorem number_eq (numeral : Numeral) :
    numeral.number = (Nat.ofDigitChars 10 numeral.digits 0 : ℚ) /
      tenPow (numeral.fraction.getD []).length := by
  have hpower : ((tenPow (numeral.fraction.getD []).length : ℕ) : ℚ) =
      10 ^ (numeral.fraction.getD []).length := Nat.cast_pow _ _
  have hdigits : Nat.ofDigitChars 10 numeral.digits 0 =
      10 ^ (numeral.fraction.getD []).length * Nat.ofDigitChars 10 numeral.whole 0 +
        Nat.ofDigitChars 10 (numeral.fraction.getD []) 0 :=
    (Nat.ofDigitChars_append 0).trans Nat.ofDigitChars_eq_ofDigitChars_zero
  rw [number, fractionNumber_eq, hdigits, hpower]
  push_cast
  field_simp

/-- The value of a numeral is the double nearest to the number it spells. -/
theorem isNearest_value (numeral : Numeral) :
    Binary64.IsNearest numeral.value.toBits.toNat numeral.number := by
  have hpos : 0 < tenPow (numeral.fraction.getD []).length := Nat.pow_pos (by decide)
  have hnearest := Binary64.isNearest_nearest (Nat.ofDigitChars 10 numeral.digits 0) hpos
  have hbits : numeral.value.toBits.toNat = _ := Binary64.toBits_ofBits hnearest.le_infinity
  rw [number_eq, hbits]
  exact hnearest

theorem isWellFormed_ofText {first : Char} {rest : List Char}
    (h : first.isDigit = true ∨ first = '.' ∧ rest.head?.any Char.isDigit = true) :
    (ofText (first :: rest)).IsWellFormed := by
  obtain ⟨after, -, hdigits, -⟩ := exists_after (first :: rest)
  refine ⟨hdigits, ?_⟩
  rw [digits, ne_eq, List.append_eq_nil_iff, not_and_or]
  rcases h with hdigit | ⟨rfl, hdigit⟩
  · rw [whole_ofText, List.takeWhile_cons_of_pos hdigit]
    exact .inl (List.cons_ne_nil _ _)
  · cases rest with
    | nil => cases hdigit
    | cons digit rest =>
      have hpoint : ofText ('.' :: digit :: rest) =
          ⟨[], some ((digit :: rest).takeWhile Char.isDigit)⟩ := rfl
      have hfirst : digit.isDigit = true := hdigit
      rw [hpoint, List.takeWhile_cons_of_pos hfirst]
      exact .inr (List.cons_ne_nil _ _)

end Numeral

/-- The characters that are operators or marks. -/
def symbolCharacters : List Char :=
  ['+', '-', '*', '/', '=', '<', '>', ',', ':', ';', '(', ')', '\x7b', '\x7d']

/-- Whether a token can begin with a character in front of the given text. A point needs a digit
behind it. -/
def StartsToken (character : Char) (after : List Char) : Prop :=
  character ∈ symbolCharacters ∨ IsQuote character ∨ character.isAlpha = true ∨ character = '_' ∨
    character.isDigit = true ∨ character = '.' ∧ after.head?.any Char.isDigit = true

/-- How a token of each kind stands in a text, between what comes before it and what comes after. -/
def TokenKind.Fits (before text after : List Char) : TokenKind → Prop
  | number value => ∃ numeral : Numeral, numeral.IsWellFormed ∧ text = numeral.text ∧
      (∀ character ∈ after.head?, character.isDigit = false ∧
        (numeral.fraction = none → character ≠ '.')) ∧
      Binary64.IsNearest value.toBits.toNat numeral.number
  | string _ => ∃ quote rest, IsQuote quote ∧ text = quote :: rest
  | identifier name => text = name.toList ∧ IsMaximalWord before text after ∧
      ∀ word : Keyword, word.spelling ≠ name
  | keyword word => text = word.spelling.toList ∧ IsMaximalWord before text after
  | operator sign => text = sign.spelling.toList ∧
      (sign = .less ∨ sign = .greater → after.head? ≠ some '=') ∧
      (sign = .divide → after.head? ≠ some '/' ∧ after.head? ≠ some '*')
  | mark sign => text = [sign.character]
  | bad => ∃ character, text = [character] ∧ Text.isBlank character = false ∧
      ¬ StartsToken character after
  | eof => text = [] ∧ after = []

/-! ## Each form fits -/

theorem Trivia.not_isBlank_of_length {first : Char} {rest : List Char}
    (h : length (first :: rest) = 0) : Text.isBlank first = false := by
  by_contra hblank
  have hpassed := (Item.blank (eq_true_of_ne_false hblank)).length_append rest
  rw [List.singleton_append, h, List.length_singleton] at hpassed
  omega

theorem Trivia.length_lineComment_ne (text : List Char) : length ('/' :: '/' :: text) ≠ 0 := by
  by_cases hbreak : '\n' ∈ text
  · obtain ⟨comment, rest, rfl, hcomment⟩ := List.eq_append_cons_of_mem hbreak
    have hpassed := (Item.lineComment hcomment).length_append rest
    rw [List.cons_append, List.cons_append, List.append_assoc, List.singleton_append] at hpassed
    rw [hpassed, List.length_cons]
    omega
  · rw [length_lastLine hbreak]
    omega

theorem not_startsToken {first : Char} {rest : List Char} (noQuote : ¬ IsQuote first)
    (noNumeral : ¬ (first.isDigit = true ∨ first = '.' ∧ rest.head?.any Char.isDigit = true))
    (noWord : ¬ (first.isAlpha = true ∨ first = '_'))
    (noSymbol : Symbol.ofCharacter? first = none) : ¬ StartsToken first rest := by
  rintro (hsymbol | hquote | halpha | hunderscore | hnumeral)
  · have hsome : ∀ character ∈ symbolCharacters, Symbol.ofCharacter? character ≠ none := by
      simp [symbolCharacters, Symbol.ofCharacter?]
    exact hsome first hsymbol noSymbol
  · exact noQuote hquote
  · exact noWord (.inl halpha)
  · exact noWord (.inr hunderscore)
  · exact noNumeral hnumeral

/-- A slash in front of another one, or of a star, begins a comment. -/
theorem head?_ne_of_slash {rest : List Char} (hstops : Trivia.length ('/' :: rest) = 0)
    (hcomment : Cursor.opensComment ('/' :: rest) = false) :
    rest.head? ≠ some '/' ∧ rest.head? ≠ some '*' := by
  constructor
  · intro hslash
    obtain ⟨rest, rfl⟩ := List.head?_eq_some_iff.1 hslash
    exact Trivia.length_lineComment_ne rest hstops
  · intro hstar
    obtain ⟨rest, rfl⟩ := List.head?_eq_some_iff.1 hstar
    cases hcomment

/-- A character that stands for a symbol spells an operator or a mark. -/
theorem Symbol.spelled_of_ofCharacter? {character : Char} {symbol : Symbol}
    (h : ofCharacter? character = some symbol) :
    (∃ sign, symbol = .operator sign ∧ sign.spelling.toList = [character]) ∨
      ∃ sign, symbol = .mark sign ∧ sign.character = character := by
  unfold ofCharacter? at h
  split at h
  all_goals cases h
  all_goals first
    | exact .inl ⟨_, rfl, rfl⟩
    | exact .inr ⟨_, rfl, rfl⟩

/-- A symbol of one character stands alone. -/
theorem Symbol.fits {before : List Char} {first : Char} {rest : List Char} {symbol : Symbol}
    (hstops : Trivia.length (first :: rest) = 0)
    (hcomment : Cursor.opensComment (first :: rest) = false)
    (spelled : ofCharacter? first = some symbol)
    (alone : ¬ ((first = '<' ∨ first = '>') ∧ rest.head? = some '=')) :
    (TokenKind.symbol symbol).Fits before [first] rest := by
  rcases spelled_of_ofCharacter? spelled with ⟨sign, rfl, hspelling⟩ | ⟨sign, rfl, hcharacter⟩
  · refine ⟨hspelling.symm, fun hsign hequals ↦ alone ⟨?_, hequals⟩, fun hsign ↦ ?_⟩
    · rcases hsign with rfl | rfl
      · exact .inl (List.singleton_inj.1 hspelling).symm
      · exact .inr (List.singleton_inj.1 hspelling).symm
    · subst hsign
      obtain rfl : '/' = first := List.singleton_inj.1 hspelling
      exact head?_ne_of_slash hstops hcomment
  · exact congrArg (fun character ↦ [character]) hcharacter.symm

/-- A word between boundaries is a keyword if it is spelled as one, and otherwise a name. -/
theorem TokenKind.fits_ofWord {before word after : List Char}
    (h : IsMaximalWord before word after) :
    (ofWord (String.ofList word)).Fits before word after := by
  unfold ofWord
  cases hword : Keyword.ofWord? (String.ofList word) with
  | some keyword =>
    have hspelling := Keyword.spelling_of_ofWord? hword
    exact ⟨by rw [hspelling, String.toList_ofList], h⟩
  | none =>
    refine ⟨String.toList_ofList.symm, h, fun keyword hspelling ↦ ?_⟩
    rw [← hspelling, Keyword.ofWord?_spelling] at hword
    cases hword

/-- The word characters at the front of a text are a word if they begin with no digit. -/
theorem isWord_takeWhile {first : Char} (begins : first.isAlpha = true ∨ first = '_')
    (rest : List Char) : IsWord ((first :: rest).takeWhile isWordCharacter) := by
  rw [List.takeWhile_cons_of_pos (isWordCharacter_of_begins begins)]
  exact ⟨begins, fun character hmem ↦ List.mem_takeWhile_imp hmem⟩

/-- The token at a boundary, where no trivia follow, stands there as its kind asks. -/
theorem Shape.fits {before : List Char} {first : Char} {rest : List Char}
    (hstops : Trivia.length (first :: rest) = 0)
    (hcomment : Cursor.opensComment (first :: rest) = false)
    (hboundary : Boundary before (first :: rest)) :
    (ofText first rest).kind.Fits before ((first :: rest).take (ofText first rest).length)
      ((first :: rest).drop (ofText first rest).length) := by
  cases form first rest with
  | pair sign begins follows shape =>
    obtain ⟨rest, rfl⟩ := List.head?_eq_some_iff.1 follows
    rw [shape]
    rcases begins with ⟨rfl, rfl⟩ | ⟨rfl, rfl⟩
    · exact ⟨rfl, by simp, by simp⟩
    · exact ⟨rfl, by simp, by simp⟩
  | quoted begins shape =>
    rw [shape]
    exact ⟨first, _, begins, rfl⟩
  | numeral begins shape =>
    obtain ⟨after, hafter, -, hstop⟩ := Numeral.exists_after (first :: rest)
    have hformed := Numeral.isWellFormed_ofText begins
    rw [shape]
    dsimp only
    generalize Numeral.ofText (first :: rest) = numeral at *
    rw [hafter, ← Numeral.length_text, List.take_left, List.drop_left]
    exact ⟨numeral, hformed, rfl, hstop, numeral.isNearest_value⟩
  | word begins shape =>
    rw [shape]
    dsimp only
    rw [drop_takeWhile, ← List.prefix_iff_eq_take.1 (List.takeWhile_prefix isWordCharacter)]
    rw [← List.takeWhile_append_dropWhile (p := isWordCharacter) (l := first :: rest)] at hboundary
    exact TokenKind.fits_ofWord (hboundary.isMaximalWord (isWord_takeWhile begins rest)
      fun character hmem ↦ head?_dropWhile hmem)
  | symbol sign spelled alone shape =>
    rw [shape]
    exact Symbol.fits hstops hcomment spelled alone
  | bad noQuote noNumeral noWord noSymbol shape =>
    rw [shape]
    exact ⟨first, rfl, Trivia.not_isBlank_of_length hstops,
      not_startsToken noQuote noNumeral noWord noSymbol⟩

/-! ## The tokens of a text -/

/-- A token of a source text, with the text in front of it, its own text and the text behind it. -/
structure Token.StandsIn (source : String) (before text after : List Char) (token : Token) :
    Prop where
  source_eq : source.toList = before ++ text ++ after
  start_eq : token.span.start = Location.start.after before
  slice_eq : token.span.slice source = String.ofList text
  fits : token.kind.Fits before text after

namespace Cursor

variable {source : String} {before : List Char} {cursor : Cursor}

theorem Behind.standsIn_of_eof (h : cursor.Behind source before)
    (heof : cursor.readRaw.token.kind = .eof) :
    ∃ passed, cursor.readRaw.token.StandsIn source passed [] [] := by
  obtain ⟨hraw, hnil⟩ := readRaw_of_eof heof
  obtain ⟨passed, hnext⟩ := h.exists_behind_next
  have htoken : cursor.readRaw.token = ⟨.eof, cursor.readRaw.next.span 1⟩ :=
    congrArg Reading.token hraw
  have hsource := hnext.text_eq
  have hslice := hnext.slice_span 1
  rw [hnil] at hsource hslice
  rw [htoken]
  exact ⟨passed, by simp [hsource], hnext.location_eq, hslice, rfl, rfl⟩

theorem Behind.standsIn_of_more (h : cursor.Behind source before)
    (hboundary : Boundary before cursor.text) (hmore : cursor.readRaw.token.kind ≠ .eof) :
    ∃ passed text after, cursor.readRaw.token.StandsIn source passed text after := by
  obtain ⟨passed, hstart, hplace⟩ := h.boundary_start hboundary
  obtain ⟨first, rest, hfirst, hcomment⟩ := exists_token_of_more hmore
  have hstops := cursor.length_start
  have hslice := hstart.slice_span (Shape.ofText first rest).length
  have hsource := hstart.text_eq
  rw [hfirst] at hplace hstops hslice hsource
  rw [readRaw_of_token hfirst hcomment]
  refine ⟨passed, _, _, ?_, hstart.location_eq, hslice, Shape.fits hstops hcomment hplace⟩
  rw [List.append_assoc, List.take_append_drop, hsource]

end Cursor

/-- Every token of every text stands in it as its kind asks, the bad characters and the end of the
text included. -/
theorem tokens_fit {source : String} {token : Token} (h : token ∈ Cursor.rawTokensOf source) :
    ∃ before text after, token.StandsIn source before text after := by
  obtain ⟨lexeme, hmem, rfl⟩ := List.mem_map.1 h
  obtain ⟨cursor, hreached, rfl⟩ := Cursor.Reached.start.exists_of_mem hmem
  obtain ⟨before, hbehind, hboundary⟩ := hreached.exists_boundary
  by_cases heof : cursor.readRaw.token.kind = .eof
  · obtain ⟨passed, hstands⟩ := hbehind.standsIn_of_eof heof
    exact ⟨passed, [], [], hstands⟩
  · exact hbehind.standsIn_of_more hboundary heof

/-- A numeral takes one point, which leaves the next one without a token of its own. -/
theorem secondPoint_fits :
    ⟨.bad, ⟨⟨1, 3, 2⟩, 1⟩⟩ ∈ Cursor.rawTokensOf "1..x" ∧
      ∃ before text after,
        Token.StandsIn "1..x" before text after ⟨.bad, ⟨⟨1, 3, 2⟩, 1⟩⟩ := by
  have hmem : ⟨.bad, ⟨⟨1, 3, 2⟩, 1⟩⟩ ∈ Cursor.rawTokensOf "1..x" := by
    rw [Cursor.rawTokensOf, Cursor.rawLexemes_of_more (by decide),
      Cursor.rawLexemes_of_more (by decide)]
    exact List.mem_cons_of_mem _ (List.mem_cons_self ..)
  exact ⟨hmem, tokens_fit hmem⟩

end Slang
