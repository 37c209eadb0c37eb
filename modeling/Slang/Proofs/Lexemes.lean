import Slang.Proofs.TokenStream

/-!
# The lexemes of a text

Every token but the end of the text takes up a character, so reading comes to the end, and the
end is read once, as the last token.
-/

namespace Slang

/-! ## Single tokens -/

namespace Numeral

theorem whole_ofText (text : List Char) : (ofText text).whole = text.takeWhile Char.isDigit := by
  unfold ofText
  dsimp only
  split <;> rfl

theorem whole_length_le (numeral : Numeral) : numeral.whole.length ≤ numeral.length := by
  unfold length
  split <;> omega

theorem length_ofText_pos {first : Char} {rest : List Char}
    (h : first.isDigit = true ∨ first = '.') : 0 < (ofText (first :: rest)).length := by
  by_cases hdigit : first.isDigit = true
  · refine Nat.lt_of_lt_of_le ?_ (whole_length_le _)
    rw [whole_ofText, List.takeWhile_cons_of_pos hdigit]
    exact Nat.succ_pos _
  · obtain rfl := h.resolve_left hdigit
    have htext : ofText ('.' :: rest) = ⟨[], some (rest.takeWhile Char.isDigit)⟩ := rfl
    rw [htext, length]
    exact Nat.lt_of_lt_of_le (Nat.succ_pos 0) (Nat.le_add_right _ _)

end Numeral

theorem isWordCharacter_of_begins {first : Char} (h : first.isAlpha = true ∨ first = '_') :
    isWordCharacter first = true := by
  unfold isWordCharacter Char.isAlphanum
  rcases h with halpha | rfl
  · simp [halpha]
  · rfl

namespace Shape

theorem length_ofText_pos (first : Char) (rest : List Char) : 0 < (ofText first rest).length := by
  unfold ofText
  dsimp only
  split
  · exact Nat.succ_pos _
  split
  · exact Nat.succ_pos _
  split
  · exact Nat.succ_pos _
  split
  · rename_i hnumeral
    exact Numeral.length_ofText_pos (hnumeral.imp_right And.left)
  split
  · rename_i hword
    rw [List.takeWhile_cons_of_pos (isWordCharacter_of_begins hword)]
    exact Nat.succ_pos _
  split <;> exact Nat.succ_pos _

theorem closed_of_missingQuote {quote : Char} {quoted : Quoted}
    (h : (ofQuoted quote quoted).missingQuote = none) : quoted.closed = true := by
  simpa [ofQuoted] using h

theorem kind_ofWord_ne_eof (word : String) : TokenKind.ofWord word ≠ .eof := by
  unfold TokenKind.ofWord
  split <;> exact TokenKind.noConfusion

theorem kind_ofText_ne_eof (first : Char) (rest : List Char) : (ofText first rest).kind ≠ .eof := by
  unfold ofText
  dsimp only
  repeat' split
  all_goals first
    | exact TokenKind.noConfusion
    | exact kind_ofWord_ne_eof _

end Shape

namespace Cursor

/-- The cursor behind the trivia. -/
def start (cursor : Cursor) : Cursor :=
  cursor.advance (Trivia.length cursor.text)

/-- Whether a block comment begins a text. -/
def opensComment : List Char → Bool
  | '/' :: '*' :: _ => true
  | _ => false

theorem problems_eq_nil {start next : Cursor} {first : Char} {shape : Shape}
    (h : problems start next first shape = []) : shape.missingQuote = none ∧ shape.kind ≠ .bad := by
  unfold problems at h
  split at h
  · cases h
  · rename_i hquote
    refine ⟨hquote, fun hbad ↦ ?_⟩
    rw [if_pos hbad] at h
    cases h

section ReadRaw

variable {cursor : Cursor}

theorem readRaw_of_end (h : cursor.start.text = []) :
    cursor.readRaw = cursor.start.readEnd [] := by
  unfold start at h
  unfold readRaw
  dsimp only
  rw [h]
  rfl

theorem readRaw_of_comment (h : opensComment cursor.start.text = true) :
    cursor.readRaw =
      cursor.start.toEnd.readEnd [⟨.unclosedComment, cursor.start.span 2, .error⟩] := by
  unfold opensComment start at h
  unfold readRaw
  dsimp only
  split at h
  · rename_i rest htext
    rw [htext]
    rfl
  · cases h

theorem readRaw_of_token {first : Char} {rest : List Char}
    (h : cursor.start.text = first :: rest) (hcomment : opensComment (first :: rest) = false) :
    cursor.readRaw =
      let shape := Shape.ofText first rest
      let next := cursor.start.advance shape.length
      ⟨⟨shape.kind, cursor.start.span shape.length⟩, cursor.start.problems next first shape,
        next⟩ := by
  unfold start at h
  unfold readRaw
  dsimp only
  rw [h]
  split
  · contradiction
  · rename_i heq
    rw [heq] at hcomment
    cases hcomment
  · rename_i heq
    cases heq
    rfl

/-- Reading comes to the end of the text, finds a comment that is never closed, or reads a
token. -/
theorem start_cases (cursor : Cursor) :
    cursor.start.text = [] ∨ opensComment cursor.start.text = true ∨
      ∃ first rest, cursor.start.text = first :: rest ∧ opensComment (first :: rest) = false := by
  cases htext : cursor.start.text with
  | nil => exact .inl rfl
  | cons first rest =>
    cases hcomment : opensComment (first :: rest) with
    | true => exact .inr (.inl rfl)
    | false => exact .inr (.inr ⟨first, rest, rfl, hcomment⟩)

theorem exists_token_of_more (h : cursor.readRaw.token.kind ≠ .eof) :
    ∃ first rest, cursor.start.text = first :: rest ∧ opensComment (first :: rest) = false := by
  rcases cursor.start_cases with hend | hcomment | htoken
  · rw [readRaw_of_end hend] at h
    exact absurd rfl h
  · rw [readRaw_of_comment hcomment] at h
    exact absurd rfl h
  · exact htoken

end ReadRaw

/-- Reading comes to the end of the text or passes over a character. -/
theorem readRaw_progress (cursor : Cursor) :
    cursor.readRaw.token.kind = .eof ∨
      cursor.readRaw.token.kind ≠ .eof ∧ cursor.readRaw.next.text.length < cursor.text.length := by
  rcases cursor.start_cases with hend | hcomment | ⟨first, rest, htext, hcomment⟩
  · rw [readRaw_of_end hend]
    exact .inl rfl
  · rw [readRaw_of_comment hcomment]
    exact .inl rfl
  · rw [readRaw_of_token htext hcomment]
    refine .inr ⟨Shape.kind_ofText_ne_eof first rest, ?_⟩
    have hpos := Shape.length_ofText_pos first rest
    have hlength := congrArg List.length htext
    simp only [start, advance, List.length_drop, List.length_cons] at hlength ⊢
    omega

theorem readRaw_of_nil {cursor : Cursor} (h : cursor.text = []) :
    cursor.readRaw.token.kind = .eof := by
  rcases cursor.readRaw_progress with heof | ⟨-, hlt⟩
  · exact heof
  · rw [h] at hlt
    cases hlt

theorem readRaw_next_lt_of_bad {cursor : Cursor} (h : cursor.readRaw.token.kind = .bad) :
    cursor.readRaw.next.text.length < cursor.text.length := by
  rcases cursor.readRaw_progress with heof | ⟨-, hlt⟩
  · rw [heof] at h
    cases h
  · exact hlt

/-! ## Reading without limits -/

theorem readWithin_of_ne_bad {cursor : Cursor} (h : cursor.readRaw.token.kind ≠ .bad)
    (limit : Nat) : cursor.readWithin limit = cursor.readRaw := by
  cases limit with
  | zero => rfl
  | succ limit =>
    rw [readWithin]
    exact if_neg h

theorem readWithin_of_bad {cursor : Cursor} (h : cursor.readRaw.token.kind = .bad) (limit : Nat) :
    cursor.readWithin (limit + 1) =
      ⟨(cursor.readRaw.next.readWithin limit).token,
        cursor.readRaw.reports ++ (cursor.readRaw.next.readWithin limit).reports,
        (cursor.readRaw.next.readWithin limit).next⟩ := by
  rw [readWithin]
  exact if_pos h

/-- The limit does not matter, if it is not below the number of characters. -/
theorem readWithin_eq_read {limit : Nat} {cursor : Cursor} (h : cursor.text.length ≤ limit) :
    cursor.readWithin limit = cursor.read := by
  unfold read
  generalize hleast : cursor.text.length = least at h
  replace hleast : cursor.text.length ≤ least := Nat.le_of_eq hleast
  induction least generalizing limit cursor with
  | zero =>
    have heof := readRaw_of_nil (List.eq_nil_of_length_eq_zero (Nat.le_zero.1 hleast))
    have hgood : cursor.readRaw.token.kind ≠ .bad := by simp [heof]
    rw [readWithin_of_ne_bad hgood, readWithin_of_ne_bad hgood]
  | succ least ih =>
    obtain ⟨limit, rfl⟩ : ∃ fewer, limit = fewer + 1 := ⟨limit - 1, by omega⟩
    by_cases hbad : cursor.readRaw.token.kind = .bad
    · have hlt := readRaw_next_lt_of_bad hbad
      rw [readWithin_of_bad hbad, readWithin_of_bad hbad, ih (by omega) (by omega)]
    · rw [readWithin_of_ne_bad hbad, readWithin_of_ne_bad hbad]

theorem read_of_ne_bad {cursor : Cursor} (h : cursor.readRaw.token.kind ≠ .bad) :
    cursor.read = cursor.readRaw :=
  readWithin_of_ne_bad h _

theorem read_of_bad {cursor : Cursor} (h : cursor.readRaw.token.kind = .bad) :
    cursor.read = ⟨cursor.readRaw.next.read.token,
      cursor.readRaw.reports ++ cursor.readRaw.next.read.reports,
      cursor.readRaw.next.read.next⟩ := by
  have hlt := readRaw_next_lt_of_bad h
  obtain ⟨fewer, hfewer⟩ : ∃ fewer, cursor.text.length = fewer + 1 :=
    ⟨cursor.text.length - 1, by omega⟩
  rw [read, hfewer, readWithin_of_bad h, readWithin_eq_read (by omega)]

/-- Cursors are walked from bad character to bad character. -/
theorem read_induction {motive : Cursor → Prop}
    (good : ∀ cursor, cursor.readRaw.token.kind ≠ .bad → motive cursor)
    (bad : ∀ cursor, cursor.readRaw.token.kind = .bad → motive cursor.readRaw.next → motive cursor)
    (cursor : Cursor) : motive cursor := by
  generalize hlength : cursor.text.length = length
  induction length using Nat.strongRecOn generalizing cursor with
  | _ length ih =>
    by_cases hbad : cursor.readRaw.token.kind = .bad
    · exact bad cursor hbad (ih _ (hlength ▸ readRaw_next_lt_of_bad hbad) _ rfl)
    · exact good cursor hbad

theorem read_progress (cursor : Cursor) :
    cursor.read.token.kind = .eof ∨
      cursor.read.token.kind ≠ .eof ∧ cursor.read.next.text.length < cursor.text.length := by
  induction cursor using read_induction with
  | good cursor hgood =>
    rw [read_of_ne_bad hgood]
    exact cursor.readRaw_progress
  | bad cursor hbad ih =>
    rw [read_of_bad hbad]
    exact ih.imp_right fun hmore ↦ ⟨hmore.1, Nat.lt_trans hmore.2 (readRaw_next_lt_of_bad hbad)⟩

/-- The lexemes from a cursor up to and including the end of the text, as one list. -/
def lexemeList (cursor : Cursor) : List Lexeme :=
  cursor.lexemes.1 :: cursor.lexemes.2

theorem lexemesWithin_of_eof {cursor : Cursor} (h : cursor.read.token.kind = .eof) {limit : Nat}
    (hlimit : cursor.text.length ≤ limit) :
    cursor.lexemesWithin limit = (cursor.read.lexeme, []) := by
  cases limit with
  | zero => rw [← readWithin_eq_read hlimit]; rfl
  | succ limit =>
    rw [lexemesWithin, readWithin_eq_read hlimit]
    exact if_pos h

theorem lexemesWithin_of_more {cursor : Cursor} (h : cursor.read.token.kind ≠ .eof) {limit : Nat}
    (hlimit : cursor.text.length ≤ limit + 1) :
    cursor.lexemesWithin (limit + 1) =
      (cursor.read.lexeme, (cursor.read.next.lexemesWithin limit).1 ::
        (cursor.read.next.lexemesWithin limit).2) := by
  rw [lexemesWithin, readWithin_eq_read hlimit]
  exact if_neg h

theorem lexemesWithin_eq_lexemes {limit : Nat} {cursor : Cursor} (h : cursor.text.length ≤ limit) :
    cursor.lexemesWithin limit = cursor.lexemes := by
  unfold lexemes
  generalize hleast : cursor.text.length = least at h
  replace hleast : cursor.text.length ≤ least := Nat.le_of_eq hleast
  induction least generalizing limit cursor with
  | zero =>
    have heof : cursor.read.token.kind = .eof := by
      rcases cursor.read_progress with heof | ⟨-, hlt⟩
      · exact heof
      · omega
    rw [lexemesWithin_of_eof heof (Nat.le_trans hleast h), lexemesWithin_of_eof heof hleast]
  | succ least ih =>
    obtain ⟨limit, rfl⟩ : ∃ fewer, limit = fewer + 1 := ⟨limit - 1, by omega⟩
    rcases cursor.read_progress with heof | ⟨hmore, hlt⟩
    · rw [lexemesWithin_of_eof heof (Nat.le_trans hleast h), lexemesWithin_of_eof heof hleast]
    · rw [lexemesWithin_of_more hmore (Nat.le_trans hleast h), lexemesWithin_of_more hmore hleast,
        ih (by omega) (by omega)]

theorem lexemeList_of_eof {cursor : Cursor} (h : cursor.read.token.kind = .eof) :
    cursor.lexemeList = [cursor.read.lexeme] := by
  rw [lexemeList, lexemes, lexemesWithin_of_eof h (Nat.le_refl _)]

theorem lexemeList_of_more {cursor : Cursor} (h : cursor.read.token.kind ≠ .eof) :
    cursor.lexemeList = cursor.read.lexeme :: cursor.read.next.lexemeList := by
  rcases cursor.read_progress with heof | ⟨-, hlt⟩
  · exact absurd heof h
  · obtain ⟨fewer, hfewer⟩ : ∃ fewer, cursor.text.length = fewer + 1 :=
      ⟨cursor.text.length - 1, by omega⟩
    rw [lexemeList, lexemes, hfewer, lexemesWithin_of_more h (Nat.le_of_eq hfewer),
      lexemesWithin_eq_lexemes (by omega)]
    rfl

/-- Cursors are walked from token to token. -/
theorem lexeme_induction {motive : Cursor → Prop}
    (last : ∀ cursor, cursor.read.token.kind = .eof → motive cursor)
    (more : ∀ cursor, cursor.read.token.kind ≠ .eof → motive cursor.read.next → motive cursor)
    (cursor : Cursor) : motive cursor := by
  generalize hlength : cursor.text.length = length
  induction length using Nat.strongRecOn generalizing cursor with
  | _ length ih =>
    rcases cursor.read_progress with heof | ⟨hmore, hlt⟩
    · exact last cursor heof
    · exact more cursor hmore (ih _ (hlength ▸ hlt) _ rfl)

theorem exists_lexemeList_kinds (cursor : Cursor) :
    ∃ front, cursor.lexemeList.map (Token.kind ∘ Lexeme.token) = front ++ [.eof] ∧
      TokenKind.eof ∉ front := by
  induction cursor using lexeme_induction with
  | last cursor heof =>
    rw [lexemeList_of_eof heof]
    exact ⟨[], congrArg (fun kind ↦ [kind]) heof, List.not_mem_nil⟩
  | more cursor hmore ih =>
    obtain ⟨front, hfront, hnone⟩ := ih
    rw [lexemeList_of_more hmore, List.map_cons, hfront]
    refine ⟨cursor.read.token.kind :: front, rfl, ?_⟩
    rw [List.mem_cons]
    exact fun h ↦ h.elim (fun heq ↦ hmore heq.symm) hnone

/-- What reading a text reports, on the way to any of its tokens. -/
def reportsOf (source : String) : List Diagnostic :=
  (ofSource source).lexemeList.flatMap Lexeme.reports

end Cursor

namespace ParseState

variable (colors : Option Painter) (source : String)

theorem current_ofSource :
    (ofSource colors source).current = (Cursor.ofSource source).lexemes.1.token :=
  current_absorb _ _

theorem upcoming_ofSource :
    (ofSource colors source).upcoming = (Cursor.ofSource source).lexemes.2 :=
  upcoming_absorb _ _

theorem diagnostics_ofSource :
    (ofSource colors source).diagnostics = (Cursor.ofSource source).lexemes.1.reports :=
  diagnostics_absorb _ _

theorem tokens_ofSource : (ofSource colors source).tokens = Cursor.tokensOf source := by
  rw [tokens, current_ofSource, upcoming_ofSource]
  rfl

theorem reports_ofSource : (ofSource colors source).reports = Cursor.reportsOf source := by
  rw [reports, diagnostics_ofSource, upcoming_ofSource]
  rfl

/-- The end is the last token of a text and occurs nowhere else in it. -/
theorem ofSource_ended : (ofSource colors source).Ended := by
  obtain ⟨front, hfront, hnone⟩ := (Cursor.ofSource source).exists_lexemeList_kinds
  refine ⟨front, ?_, hnone⟩
  rw [← hfront, kinds, tokens_ofSource, Cursor.tokensOf, List.map_map]
  rfl

end ParseState

end Slang
