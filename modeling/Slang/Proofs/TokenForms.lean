import Slang.Proofs.Respacing

/-!
# The forms of a token

What a character and the text behind it are read as falls into six forms: an operator of two
characters, a string, a numeral, a word, a symbol of one character, and a bad character. Every token
of a text is one of these, read where a cursor comes to from the start of the text token by token.
-/

namespace Slang

namespace Shape

/-- The form of the token at the front of a text, with the token that is read. -/
inductive Form (first : Char) (rest : List Char) : Prop
  | pair (sign : Operator)
      (begins : first = '<' ∧ sign = .lessOrEqual ∨ first = '>' ∧ sign = .greaterOrEqual)
      (follows : rest.head? = some '=') (shape : ofText first rest = ⟨.operator sign, 2, none⟩)
  | quoted (begins : first = '"' ∨ first = '\'')
      (shape : ofText first rest = ofQuoted first (Quoted.ofText first rest))
  | numeral (begins : first.isDigit = true ∨ first = '.' ∧ rest.head?.any Char.isDigit = true)
      (shape : ofText first rest = ⟨.number (Numeral.ofText (first :: rest)).value,
        (Numeral.ofText (first :: rest)).length, none⟩)
  | word (begins : first.isAlpha = true ∨ first = '_')
      (shape : ofText first rest =
        ⟨TokenKind.ofWord (String.ofList ((first :: rest).takeWhile isWordCharacter)),
          ((first :: rest).takeWhile isWordCharacter).length, none⟩)
  | symbol (sign : Symbol) (spelled : Symbol.ofCharacter? first = some sign)
      (alone : ¬ ((first = '<' ∨ first = '>') ∧ rest.head? = some '='))
      (shape : ofText first rest = ⟨.symbol sign, 1, none⟩)
  | bad (noQuote : ¬ (first = '"' ∨ first = '\''))
      (noNumeral : ¬ (first.isDigit = true ∨ first = '.' ∧ rest.head?.any Char.isDigit = true))
      (noWord : ¬ (first.isAlpha = true ∨ first = '_'))
      (noSymbol : Symbol.ofCharacter? first = none)
      (shape : ofText first rest = ⟨.bad, 1, none⟩)

theorem form (first : Char) (rest : List Char) : Form first rest := by
  by_cases hpair : (first = '<' ∨ first = '>') ∧ rest.head? = some '='
  · obtain ⟨rest, rfl⟩ := List.head?_eq_some_iff.1 hpair.2
    rcases hpair.1 with rfl | rfl
    · exact .pair .lessOrEqual (.inl ⟨rfl, rfl⟩) rfl rfl
    · exact .pair .greaterOrEqual (.inr ⟨rfl, rfl⟩) rfl rfl
  by_cases hquoted : first = '"' ∨ first = '\''
  · exact .quoted hquoted (ofText_quoted hquoted rest)
  by_cases hnumeral : first.isDigit = true ∨ first = '.' ∧ rest.head?.any Char.isDigit = true
  · exact .numeral hnumeral (ofText_numeral hnumeral)
  by_cases hword : first.isAlpha = true ∨ first = '_'
  · exact .word hword (ofText_word hword rest)
  have hsingle := ofText_single hpair hquoted hnumeral hword
  cases hsymbol : Symbol.ofCharacter? first with
  | some sign =>
    rw [hsymbol] at hsingle
    exact .symbol sign hsymbol hpair hsingle
  | none =>
    rw [hsymbol] at hsingle
    exact .bad hquoted hnumeral hword hsymbol hsingle

theorem kind_ofWord_ne_bad (word : String) : TokenKind.ofWord word ≠ .bad := by
  unfold TokenKind.ofWord
  split <;> exact TokenKind.noConfusion

theorem ofText_of_bad {first : Char} {rest : List Char} (h : (ofText first rest).kind = .bad) :
    ofText first rest = ⟨.bad, 1, none⟩ := by
  cases form first rest with
  | bad _ _ _ _ shape => exact shape
  | word _ shape =>
    rw [shape] at h
    exact absurd h (kind_ofWord_ne_bad _)
  | _ => simp_all [ofQuoted]

end Shape

namespace Cursor

/-- Reading a source text token by token comes to this cursor. -/
inductive Reached (source : String) : Cursor → Prop
  | start : Reached source (ofSource source)
  | next {cursor : Cursor} (earlier : Reached source cursor)
      (more : cursor.readRaw.token.kind ≠ .eof) : Reached source cursor.readRaw.next

namespace Reached

variable {source : String} {cursor : Cursor}

theorem exists_behind (h : Reached source cursor) : ∃ before, cursor.Behind source before := by
  induction h with
  | start => exact ⟨[], behind_ofSource source⟩
  | next _ more ih =>
    obtain ⟨before, hbehind⟩ := ih
    obtain ⟨piece, -, -, -, -, -, hnext⟩ := piece_of_more hbehind more
    exact ⟨_, hnext⟩

theorem exists_of_mem {lexeme : Lexeme} (h : Reached source cursor)
    (hmem : lexeme ∈ cursor.rawLexemes) :
    ∃ reached, Reached source reached ∧ reached.readRaw.lexeme = lexeme := by
  induction cursor using rawLexemes.induct with
  | case1 cursor heof =>
    rw [rawLexemes_of_eof heof, List.mem_singleton] at hmem
    exact ⟨cursor, h, hmem.symm⟩
  | case2 cursor hmore ih =>
    rw [rawLexemes_of_more hmore, List.mem_cons] at hmem
    rcases hmem with rfl | hmem
    · exact ⟨cursor, h, rfl⟩
    · exact ih (h.next hmore) hmem

end Reached

end Cursor

end Slang
