import Mathlib.Data.List.TakeWhile
import Slang.Proofs.RoundTrip

/-!
# Other gaps between the same tokens

A token reads the same wherever it stands, if nothing or a blank follows it: a word, a numeral or an
operator ends there at the latest, a string has its own end, and a bad character has no other. So a
text can be cut into its tokens and put together with other gaps between them, as long as each of
these begins with a blank. A string whose quote is missing runs to the end of its text, so it is the
last token and nothing has to follow it.
-/

namespace Slang

open Trivia

/-! ## Blanks end tokens -/

namespace Text

/-- Nothing follows, or a blank. -/
def Breaks (following : List Char) : Prop :=
  ∀ character ∈ following.head?, isBlank character = true

theorem breaks_nil : Breaks [] := by
  intro character hmem
  cases hmem

theorem toNat_of_isBlank {character : Char} (h : isBlank character = true) :
    character.toNat ≤ 0x20 ∨ 0x85 ≤ character.toNat := by
  simp only [isBlank, blankRanges, List.any_cons, List.any_nil, Bool.or_false, Bool.or_eq_true,
    Bool.and_eq_true, decide_eq_true_eq] at h
  omega

theorem toNat_of_isAlpha {character : Char} (h : character.isAlpha = true) :
    0x41 ≤ character.toNat ∧ character.toNat ≤ 0x5A ∨
      0x61 ≤ character.toNat ∧ character.toNat ≤ 0x7A := by
  delta Char.isAlpha Char.isUpper Char.isLower at h
  simpa only [Bool.or_eq_true, Bool.and_eq_true, decide_eq_true_eq, UInt32.le_iff_toNat_le,
    ge_iff_le, Char.toNat_val, Char.reduceToNat] using h

theorem toNat_of_isDigit {character : Char} (h : character.isDigit = true) :
    0x30 ≤ character.toNat ∧ character.toNat ≤ 0x39 := by
  simpa only [Char.isDigit, Bool.and_eq_true, decide_eq_true_eq, UInt32.le_iff_toNat_le,
    ge_iff_le, Char.toNat_val, Char.reduceToNat] using h

theorem isWordCharacter_of_isBlank {character : Char} (h : isBlank character = true) :
    isWordCharacter character = false := by
  have hblank := toNat_of_isBlank h
  refine Bool.eq_false_iff.2 fun hword ↦ ?_
  simp only [isWordCharacter, Char.isAlphanum, Bool.or_eq_true, beq_iff_eq] at hword
  obtain (halpha | hdigit) | rfl := hword
  · have hrange := toNat_of_isAlpha halpha
    omega
  · have hrange := toNat_of_isDigit hdigit
    omega
  · exact absurd h (by decide)

theorem isDigit_of_isBlank {character : Char} (h : isBlank character = true) :
    character.isDigit = false := by
  have hword := isWordCharacter_of_isBlank h
  simp only [isWordCharacter, Char.isAlphanum, Bool.or_eq_false_iff] at hword
  exact hword.1.2

end Text

theorem takeWhile_cut {test : Char → Bool}
    (htest : ∀ character, Text.isBlank character = true → test character = false)
    (text : List Char) {following : List Char} (h : Text.Breaks following) :
    (text.takeWhile test ++ following).takeWhile test = text.takeWhile test := by
  have hnone : following.takeWhile test = [] := by
    cases following with
    | nil => rfl
    | cons character following =>
      have hblank : Text.isBlank character = true := h character rfl
      exact List.takeWhile_cons_of_neg (by simp [htest character hblank])
  rw [List.takeWhile_append_of_pos (fun character hmem ↦ List.mem_takeWhile_imp hmem), hnone,
    List.append_nil]

theorem Quoted.length_pos (quote first : Char) (text : List Char) :
    0 < (ofText quote (first :: text)).length := by
  cases text with
  | nil =>
    rw [ofText]
    split <;> exact Nat.succ_pos _
  | cons next text =>
    rw [ofText]
    split
    · exact Nat.succ_pos _
    split
    · exact Nat.lt_of_lt_of_le (Nat.succ_pos 1) (Nat.le_add_right _ _)
    · exact Nat.lt_of_lt_of_le (Nat.succ_pos 0) (Nat.le_add_right _ _)

/-- A string literal can be cut off behind what it takes up. -/
theorem Quoted.ofText_take (quote : Char) (text : List Char) :
    ofText quote (text.take (ofText quote text).length) = ofText quote text := by
  fun_induction ofText quote text with
  | case1 => rfl
  | case2 => exact if_pos rfl
  | case3 character hquote => exact if_neg hquote
  | case4 next text => exact if_pos rfl
  | case5 character next text hquote hescape ih =>
    have htake : (character :: next :: text).take (2 + (ofText quote text).length) =
        character :: next :: text.take (ofText quote text).length := by
      rw [Nat.add_comm]
      rfl
    simp only [push]
    rw [htake, ofText, if_neg hquote, if_pos hescape, ih]
    rfl
  | case6 character next text hquote hescape ih =>
    obtain ⟨length, hlength⟩ := Nat.exists_eq_succ_of_ne_zero
      (Nat.ne_of_gt (length_pos quote next text))
    have htake : (character :: next :: text).take (1 + (ofText quote (next :: text)).length) =
        character :: next :: text.take length := by
      rw [hlength, Nat.add_comm]
      rfl
    rw [hlength] at ih
    simp only [push]
    rw [htake, ofText, if_neg hquote, if_neg hescape]
    exact congrArg (push character 1) ih

namespace Numeral

section Digits

variable {whole : List Char} (hwhole : ∀ character ∈ whole, character.isDigit = true)
include hwhole

theorem ofText_point (rest : List Char) :
    ofText (whole ++ '.' :: rest) = ⟨whole, some (rest.takeWhile Char.isDigit)⟩ := by
  have hdigits : (whole ++ '.' :: rest).takeWhile Char.isDigit = whole := by
    rw [List.takeWhile_append_of_pos hwhole, List.takeWhile_cons_of_neg (by decide),
      List.append_nil]
  unfold ofText
  dsimp only
  rw [hdigits, List.drop_left]
  rfl

theorem ofText_whole {rest : List Char}
    (hrest : ∀ character ∈ rest.head?, character.isDigit = false ∧ character ≠ '.') :
    ofText (whole ++ rest) = ⟨whole, none⟩ := by
  have hdigits : (whole ++ rest).takeWhile Char.isDigit = whole := by
    rw [List.takeWhile_append_of_pos hwhole]
    cases rest with
    | nil => exact List.append_nil _
    | cons character rest =>
      rw [List.takeWhile_cons_of_neg (by simp [(hrest character rfl).1]), List.append_nil]
  unfold ofText
  dsimp only
  rw [hdigits, List.drop_left]
  split
  · exact absurd rfl (hrest '.' rfl).2
  · rfl

end Digits

/-- A numeral can be cut off behind what it takes up. -/
theorem ofText_cut (text : List Char) {following : List Char} (h : Text.Breaks following) :
    ofText (text.take (ofText text).length ++ following) = ofText text := by
  have hwhole : ∀ character ∈ text.takeWhile Char.isDigit, character.isDigit = true :=
    fun character hmem ↦ List.mem_takeWhile_imp hmem
  have hfollowing : ∀ character ∈ following.head?, character.isDigit = false ∧ character ≠ '.' := by
    intro character hmem
    have hblank := h character hmem
    refine ⟨Text.isDigit_of_isBlank hblank, ?_⟩
    rintro rfl
    exact absurd hblank (by decide)
  have hrest : ∀ character ∈ (text.dropWhile Char.isDigit).head?, character.isDigit = false := by
    intro character hmem
    have hhead := List.head?_dropWhile_not Char.isDigit text
    rwa [hmem] at hhead
  rw [← List.takeWhile_append_dropWhile (p := Char.isDigit) (l := text)]
  generalize text.takeWhile Char.isDigit = whole at *
  generalize text.dropWhile Char.isDigit = rest at *
  by_cases hpoint : rest.head? = some '.'
  · obtain ⟨rest, rfl⟩ := List.head?_eq_some_iff.1 hpoint
    have htake : (whole ++ '.' :: rest).take
        (whole.length + 1 + (rest.takeWhile Char.isDigit).length) =
        whole ++ '.' :: rest.takeWhile Char.isDigit := by
      rw [Nat.add_assoc, List.take_length_add_append, Nat.add_comm 1, List.take_succ_cons,
        ← List.prefix_iff_eq_take.1 (List.takeWhile_prefix _)]
    rw [ofText_point hwhole, length, htake, List.append_assoc, List.cons_append,
      ofText_point hwhole, takeWhile_cut (fun _ ↦ Text.isDigit_of_isBlank) rest h]
  · rw [ofText_whole hwhole fun character hmem ↦ ⟨hrest character hmem, ?_⟩]
    · rw [length, List.take_left, ofText_whole hwhole hfollowing]
    · rintro rfl
      exact hpoint hmem

/-- A point in front of a digit is cut off together with the digit. -/
theorem head?_take_of_point {rest : List Char} (h : rest.head?.any Char.isDigit = true)
    (following : List Char) :
    (rest.take ((ofText ('.' :: rest)).length - 1) ++ following).head?.any Char.isDigit = true := by
  cases rest with
  | nil => cases h
  | cons digit rest =>
    have hlength : (ofText ('.' :: digit :: rest)).length - 1 =
        (rest.takeWhile Char.isDigit).length + 1 := by
      have hdigit : digit.isDigit = true := h
      rw [← List.nil_append ('.' :: _), ofText_point (by simp), List.takeWhile_cons_of_pos hdigit]
      simp [length]
    rw [hlength]
    exact h

end Numeral

namespace Shape

section Branches

variable {first : Char}

theorem ofText_quoted (h : first = '"' ∨ first = '\'') (rest : List Char) :
    ofText first rest = ofQuoted first (Quoted.ofText first rest) := by
  rcases h with rfl | rfl <;> rfl

theorem ofText_numeral {rest : List Char}
    (h : first.isDigit = true ∨ first = '.' ∧ rest.head?.any Char.isDigit = true) :
    ofText first rest = ⟨.number (Numeral.ofText (first :: rest)).value,
      (Numeral.ofText (first :: rest)).length, none⟩ := by
  have hne {character : Char} (hdigit : character.isDigit = false) (hpoint : character ≠ '.') :
      first ≠ character := by
    rintro rfl
    rcases h with hfirst | ⟨hfirst, -⟩
    · exact Bool.false_ne_true (hdigit.symm.trans hfirst)
    · exact hpoint hfirst
  unfold ofText
  rw [if_neg fun hless ↦ hne (by decide) (by decide) hless.1,
    if_neg fun hgreater ↦ hne (by decide) (by decide) hgreater.1,
    if_neg (not_or.2 ⟨hne (by decide) (by decide), hne (by decide) (by decide)⟩), if_pos h]

theorem ofText_word (h : first.isAlpha = true ∨ first = '_') (rest : List Char) :
    ofText first rest =
      ⟨TokenKind.ofWord (String.ofList ((first :: rest).takeWhile isWordCharacter)),
        ((first :: rest).takeWhile isWordCharacter).length, none⟩ := by
  have hne {character : Char} (halpha : character.isAlpha = false) (hunderscore : character ≠ '_') :
      first ≠ character := by
    rintro rfl
    rcases h with hfirst | hfirst
    · exact Bool.false_ne_true (halpha.symm.trans hfirst)
    · exact hunderscore hfirst
  have hdigit : first.isDigit = false := by
    rcases h with halpha | rfl
    · refine Bool.eq_false_iff.2 fun hdigit ↦ ?_
      have hletter := Text.toNat_of_isAlpha halpha
      have hrange := Text.toNat_of_isDigit hdigit
      omega
    · decide
  unfold ofText
  rw [if_neg fun hless ↦ hne (by decide) (by decide) hless.1,
    if_neg fun hgreater ↦ hne (by decide) (by decide) hgreater.1,
    if_neg (not_or.2 ⟨hne (by decide) (by decide), hne (by decide) (by decide)⟩),
    if_neg (by simp [hdigit, hne (by decide : Char.isAlpha '.' = false) (by decide)]), if_pos h]

/-- Any other character is a token of its own, unless a second one makes an operator with it. -/
theorem ofText_single {rest : List Char}
    (hpair : ¬ ((first = '<' ∨ first = '>') ∧ rest.head? = some '='))
    (hquoted : ¬ (first = '"' ∨ first = '\''))
    (hnumeral : ¬ (first.isDigit = true ∨ first = '.' ∧ rest.head?.any Char.isDigit = true))
    (hword : ¬ (first.isAlpha = true ∨ first = '_')) :
    ofText first rest =
      ⟨((Symbol.ofCharacter? first).map TokenKind.symbol).getD .bad, 1, none⟩ := by
  unfold ofText
  rw [if_neg fun hless ↦ hpair ⟨.inl hless.1, hless.2⟩,
    if_neg fun hgreater ↦ hpair ⟨.inr hgreater.1, hgreater.2⟩, if_neg hquoted, if_neg hnumeral,
    if_neg hword]
  cases Symbol.ofCharacter? first <;> rfl

end Branches

section Cut

variable {first : Char} {rest following : List Char} (h : Text.Breaks following)
include h

theorem head?_ne_of_breaks {character : Char} (hblank : Text.isBlank character = false) :
    following.head? ≠ some character := by
  intro hhead
  rw [h character hhead] at hblank
  cases hblank

theorem head?_any_isDigit_of_breaks : following.head?.any Char.isDigit = false := by
  cases following with
  | nil => rfl
  | cons character following => exact Text.isDigit_of_isBlank (h character rfl)

/-- A token can be cut off behind what it takes up, unless its quote is missing. -/
theorem ofText_cut
    (hquote : (ofText first rest).missingQuote = none ∨ following = []) :
    ofText first (rest.take ((ofText first rest).length - 1) ++ following) = ofText first rest := by
  have hcons {length : Nat} (hpos : 0 < length) :
      first :: (rest.take (length - 1) ++ following) =
        (first :: rest).take length ++ following := by
    obtain ⟨shorter, rfl⟩ := Nat.exists_eq_succ_of_ne_zero (Nat.ne_of_gt hpos)
    rfl
  by_cases hpair : (first = '<' ∨ first = '>') ∧ rest.head? = some '='
  · obtain ⟨rest, rfl⟩ := List.head?_eq_some_iff.1 hpair.2
    rcases hpair.1 with rfl | rfl <;> rfl
  by_cases hquoted : first = '"' ∨ first = '\''
  · rw [ofText_quoted hquoted] at hquote ⊢
    rw [ofText_quoted hquoted]
    have htake := Quoted.ofText_take first rest
    rcases hquote with hquote | rfl
    · have hclosed : (Quoted.ofText first (rest.take (Quoted.ofText first rest).length)).closed =
          true := by
        rw [htake]
        exact closed_of_missingQuote hquote
      exact congrArg (ofQuoted first) ((Quoted.ofText_append hclosed following).trans htake)
    · rw [List.append_nil]
      exact congrArg (ofQuoted first) htake
  by_cases hnumeral : first.isDigit = true ∨ first = '.' ∧ rest.head?.any Char.isDigit = true
  · have hpos : 0 < (Numeral.ofText (first :: rest)).length :=
      Numeral.length_ofText_pos (hnumeral.imp_right And.left)
    have hcut : first.isDigit = true ∨ first = '.' ∧
        (rest.take ((Numeral.ofText (first :: rest)).length - 1) ++
          following).head?.any Char.isDigit = true := by
      refine hnumeral.imp_right fun hpoint ↦ ⟨hpoint.1, ?_⟩
      obtain ⟨rfl, hdigit⟩ := hpoint
      exact Numeral.head?_take_of_point hdigit following
    rw [ofText_numeral hnumeral]
    dsimp only
    rw [ofText_numeral hcut, hcons hpos, Numeral.ofText_cut _ h]
  by_cases hword : first.isAlpha = true ∨ first = '_'
  · have htake := List.prefix_iff_eq_take.1
      (List.takeWhile_prefix (l := first :: rest) isWordCharacter)
    have hpos := length_ofText_pos first rest
    rw [ofText_word hword] at hpos ⊢
    rw [ofText_word hword, hcons hpos, ← htake,
      takeWhile_cut (fun _ ↦ Text.isWordCharacter_of_isBlank) _ h]
  · rw [ofText_single hpair hquoted hnumeral hword]
    apply ofText_single _ hquoted _ hword
    · exact fun hequals ↦ head?_ne_of_breaks h (by decide) hequals.2
    · rintro (hdigit | ⟨rfl, hhead⟩)
      · exact hnumeral (.inl hdigit)
      · exact absurd hhead (by simp [head?_any_isDigit_of_breaks h])

end Cut

end Shape

/-- A string whose quote is missing takes up all of the text. -/
theorem Quoted.length_of_not_closed {quote : Char} {text : List Char}
    (h : (ofText quote text).closed = false) : (ofText quote text).length = text.length := by
  fun_induction ofText quote text with
  | case1 => rfl
  | case2 => cases h
  | case3 => rfl
  | case4 => cases h
  | case5 character next text hquote hescape ih =>
    have hlength := ih h
    simp only [push, List.length_cons]
    omega
  | case6 character next text hquote hescape ih =>
    have hlength := ih h
    simp only [push, List.length_cons] at hlength ⊢
    omega

theorem Shape.length_of_missingQuote {first : Char} {rest : List Char}
    (h : (ofText first rest).missingQuote ≠ none) :
    (ofText first rest).length = (first :: rest).length := by
  by_cases hquoted : first = '"' ∨ first = '\''
  · rw [ofText_quoted hquoted] at h ⊢
    have hopen : (Quoted.ofText first rest).closed = false := by
      by_contra hclosed
      simp [ofQuoted, hclosed] at h
    exact congrArg (· + 1) (Quoted.length_of_not_closed hopen)
  · refine absurd ?_ h
    unfold ofText
    dsimp only
    rw [if_neg hquoted]
    repeat' split
    all_goals rfl

/-! ## Tokens cut out of their text -/

/-- A token without its place: its kind and the characters that it covers. -/
structure Snippet where
  kind : TokenKind
  text : List Char

namespace Snippet

/-- In front of the given characters, the text of a snippet is read as a token of its kind. -/
def Reads (snippet : Snippet) (following : List Char) : Prop :=
  ∃ first rest, snippet.text ++ following = first :: rest ∧ Trivia.length (first :: rest) = 0 ∧
    Cursor.opensComment (first :: rest) = false ∧
    (Shape.ofText first rest).kind = snippet.kind ∧
    (Shape.ofText first rest).length = snippet.text.length

theorem opensComment_eq_false {first : Char} {rest : List Char}
    (h : ¬ (first = '/' ∧ rest.head? = some '*')) :
    Cursor.opensComment (first :: rest) = false := by
  unfold Cursor.opensComment
  split
  · exact absurd ⟨by simp_all, by simp_all⟩ h
  · rfl

/-- A token that is cut off reads the same in front of a blank, and if its quote is missing at least
in front of nothing. -/
theorem reads_cut {first : Char} {rest following : List Char}
    (hstops : Trivia.length (first :: rest) = 0) (h : Text.Breaks following)
    (hquote : (Shape.ofText first rest).missingQuote = none ∨ following = []) :
    Reads ⟨(Shape.ofText first rest).kind,
      (first :: rest).take (Shape.ofText first rest).length⟩ following := by
  have hblank : Text.isBlank first = false := by
    by_contra hblank
    have hpassed := (Item.blank (eq_true_of_ne_false hblank)).length_append rest
    rw [List.singleton_append, hstops, List.length_singleton] at hpassed
    omega
  -- A slash is a token of its own, so that a comment would have to begin in what follows.
  have hslash {character : Char} (hcharacter : Text.isBlank character = false) :
      ¬ (first = '/' ∧ (rest.take ((Shape.ofText first rest).length - 1) ++ following).head? =
        some character) := by
    rintro ⟨rfl, hhead⟩
    exact Shape.head?_ne_of_breaks h hcharacter hhead
  obtain ⟨length, hlength⟩ := Nat.exists_eq_succ_of_ne_zero
    (Nat.ne_of_gt (Shape.length_ofText_pos first rest))
  have hcut := Shape.ofText_cut h hquote
  refine ⟨first, rest.take ((Shape.ofText first rest).length - 1) ++ following, ?_, ?_, ?_, ?_, ?_⟩
  · rw [hlength]
    rfl
  · exact length_of_not_isBlank hblank (hslash (by decide)) (hslash (by decide))
  · exact opensComment_eq_false (hslash (by decide))
  · rw [hcut]
  · rw [hcut]
    exact (List.length_take_of_le (Shape.length_ofText_le first rest)).symm

/-- Each of the snippets reads alone, and each but the last in front of a blank. -/
inductive Separable : List Snippet → Prop
  | nil : Separable []
  | last {snippet : Snippet} (reads : snippet.Reads []) : Separable [snippet]
  | cons {snippet next : Snippet} {snippets : List Snippet}
      (reads : ∀ following, Text.Breaks following → snippet.Reads following)
      (others : Separable (next :: snippets)) : Separable (snippet :: next :: snippets)

theorem Separable.alone {snippets : List Snippet} (h : Separable snippets) :
    ∀ snippet ∈ snippets, snippet.Reads [] := by
  induction h with
  | nil => exact fun _ hmem ↦ absurd hmem List.not_mem_nil
  | last reads => exact fun _ hmem ↦ List.mem_singleton.1 hmem ▸ reads
  | cons reads others ih => exact List.forall_mem_cons.2 ⟨reads [] Text.breaks_nil, ih⟩

end Snippet

namespace Cursor

/-- The tokens from a cursor up to the end of the text, cut out of it. -/
def snippets (source : String) (cursor : Cursor) : List Snippet :=
  cursor.rawLexemes.dropLast.map fun lexeme ↦
    ⟨lexeme.token.kind, (lexeme.token.span.slice source).toList⟩

theorem rawLexemes_ne_nil (cursor : Cursor) : cursor.rawLexemes ≠ [] := by
  rw [rawLexemes]
  split <;> exact List.cons_ne_nil _ _

section Snippets

variable {source : String} {before : List Char} {cursor : Cursor}

theorem snippets_of_eof (h : cursor.readRaw.token.kind = .eof) : cursor.snippets source = [] := by
  rw [snippets, rawLexemes_of_eof h]
  rfl

theorem snippets_of_more (h : cursor.readRaw.token.kind ≠ .eof) :
    cursor.snippets source =
      ⟨cursor.readRaw.token.kind, (cursor.readRaw.token.span.slice source).toList⟩ ::
        cursor.readRaw.next.snippets source := by
  rw [snippets, rawLexemes_of_more h, List.dropLast_cons_of_ne_nil (rawLexemes_ne_nil _),
    List.map_cons]
  rfl

theorem kinds_rawLexemes (source : String) (cursor : Cursor) :
    cursor.rawLexemes.map (Token.kind ∘ Lexeme.token) =
      (cursor.snippets source).map Snippet.kind ++ [.eof] := by
  induction cursor using rawLexemes.induct with
  | case1 cursor heof =>
    rw [rawLexemes_of_eof heof, snippets_of_eof heof]
    exact congrArg (fun kind ↦ [kind]) heof
  | case2 cursor hmore ih =>
    rw [rawLexemes_of_more hmore, snippets_of_more hmore, List.map_cons, ih]
    rfl

/-- No trivia follow the trivia that are passed in front of a token. -/
theorem length_start (cursor : Cursor) : Trivia.length cursor.start.text = 0 := by
  obtain ⟨gap, rest, htext, hlength, hgap, -⟩ := exists_gap cursor.text
  have hrest : cursor.start.text = rest := by
    rw [start, advance, hlength, htext]
    exact List.drop_left
  have happend := length_append hgap
  rw [← htext, hlength] at happend
  rw [hrest]
  omega

/-- The tokens of a text can be taken apart. -/
theorem Behind.separable (h : cursor.Behind source before) :
    Snippet.Separable (cursor.snippets source) := by
  induction cursor using rawLexemes.induct generalizing before with
  | case1 cursor heof =>
    rw [snippets_of_eof heof]
    exact .nil
  | case2 cursor hmore ih =>
    obtain ⟨first, rest, hfirst, hcomment⟩ := exists_token_of_more hmore
    obtain ⟨piece, -, -, -, -, -, hnext⟩ := piece_of_more h hmore
    have hstops := cursor.length_start
    have hothers := ih hnext
    rw [hfirst] at hstops
    rw [snippets_of_more hmore, h.slice_readRaw hfirst hcomment]
    rw [readRaw_of_token hfirst hcomment] at hothers ⊢
    by_cases heof :
        (cursor.start.advance (Shape.ofText first rest).length).readRaw.token.kind = .eof
    · rw [snippets_of_eof heof]
      exact .last (Snippet.reads_cut hstops Text.breaks_nil (.inr rfl))
    · have hquote : (Shape.ofText first rest).missingQuote = none := by
        by_contra hopen
        apply heof
        apply readRaw_of_nil
        rw [Cursor.advance, Shape.length_of_missingQuote hopen, hfirst]
        exact List.drop_length
      rw [snippets_of_more heof] at hothers ⊢
      exact .cons (fun _ hbreaks ↦ Snippet.reads_cut hstops hbreaks (.inl hquote)) hothers

/-- A snippet behind a gap is read as a token, and reading goes on behind it. -/
theorem Behind.readRaw_snippet (h : cursor.Behind source before) {gap following : List Char}
    {snippet : Snippet} (hgap : IsGap false gap) (hreads : snippet.Reads following)
    (htext : cursor.text = gap ++ (snippet.text ++ following)) :
    cursor.snippets source = snippet :: cursor.readRaw.next.snippets source ∧
      cursor.readRaw.next.text = following ∧
      ∃ before', cursor.readRaw.next.Behind source before' := by
  obtain ⟨first, rest, hsnippet, hstops, hcomment, hkind, hlength⟩ := hreads
  have hstart : cursor.start.text = first :: rest := by
    have hgap' : IsGap (snippet.text ++ following).isEmpty gap := by
      rw [hsnippet]
      exact hgap
    rw [Cursor.start, Cursor.advance, htext, length_append hgap', hsnippet, hstops]
    exact List.drop_left
  have hraw := readRaw_of_token hstart hcomment
  have hmore : cursor.readRaw.token.kind ≠ .eof := by
    rw [hraw]
    exact Shape.kind_ofText_ne_eof first rest
  obtain ⟨piece, -, -, -, -, -, hnext⟩ := piece_of_more h hmore
  refine ⟨?_, ?_, _, hnext⟩
  · rw [snippets_of_more hmore, h.slice_readRaw hstart hcomment, hlength, ← hsnippet,
      List.take_left, hraw]
    exact congrArg (fun kind ↦ Snippet.mk kind snippet.text :: _) hkind
  · rw [hraw]
    dsimp only
    rw [Cursor.advance, hstart, hlength, ← hsnippet]
    exact List.drop_left

end Snippets

end Cursor

/-! ## Texts put together again -/

/-- What may be put between two tokens: a blank, and any gap behind it. -/
def Trivia.IsSeparator (separator : List Char) : Prop :=
  ∃ character gap, separator = character :: gap ∧ Text.isBlank character = true ∧ IsGap false gap

theorem Trivia.IsSeparator.isGap {separator : List Char} (h : IsSeparator separator) :
    IsGap false separator := by
  obtain ⟨character, gap, rfl, hblank, hgap⟩ := h
  exact .item (.blank hblank) hgap

theorem Trivia.IsSeparator.breaks {separator : List Char} (h : IsSeparator separator)
    (rest : List Char) : Text.Breaks (separator ++ rest) := by
  obtain ⟨character, gap, rfl, hblank, -⟩ := h
  intro first hfirst
  exact Option.some.inj hfirst ▸ hblank

theorem Trivia.IsGap.atEnd {gap : List Char} (h : IsGap false gap) : IsGap true gap := by
  induction h with
  | nil => exact .nil
  | item first _ ih => exact .item first ih
  | lastLine oneLine last => cases last

/-- The texts in turn, with a separator between each two of them. -/
def interleave : List (List Char) → List (List Char) → List Char
  | text :: texts, separator :: separators => text ++ (separator ++ interleave texts separators)
  | texts, _ => texts.flatten

namespace Cursor

/-- Snippets that can be taken apart are the tokens of the text that they are put together to. -/
theorem Behind.snippets_interleave {source : String} {before : List Char} {cursor : Cursor}
    (h : cursor.Behind source before) {snippets : List Snippet}
    (hapart : Snippet.Separable snippets)
    {separators : List (List Char)} (hseparators : ∀ separator ∈ separators, IsSeparator separator)
    (hlength : separators.length = snippets.length - 1) {gap : List Char} (hgap : IsGap false gap)
    (htext : cursor.text = gap ++ interleave (snippets.map Snippet.text) separators) :
    cursor.snippets source = snippets := by
  induction hapart generalizing before cursor separators gap with
  | nil =>
    have hend : cursor.start.text = [] := by
      have hpassed : Trivia.length (gap ++ []) = gap.length + 0 := length_append hgap.atEnd
      replace htext : cursor.text = gap ++ [] := htext
      rw [Cursor.start, Cursor.advance, htext, hpassed]
      exact List.drop_left
    apply snippets_of_eof
    rw [readRaw_of_end hend]
    rfl
  | @last snippet reads =>
    obtain rfl := List.eq_nil_of_length_eq_zero hlength
    obtain ⟨hsnippets, hnext, -⟩ := h.readRaw_snippet hgap reads htext
    rw [hsnippets, snippets_of_eof (readRaw_of_nil hnext)]
  | @cons snippet next snippets reads others ih =>
    obtain ⟨separator, separators, rfl⟩ := List.exists_cons_of_length_eq_add_one hlength
    obtain ⟨hseparator, hseparators⟩ := List.forall_mem_cons.1 hseparators
    obtain ⟨hsnippets, hnext, before', hbehind⟩ :=
      h.readRaw_snippet hgap (reads _ (hseparator.breaks _)) htext
    rw [hsnippets, ih hbehind hseparators (Nat.succ.inj hlength) hseparator.isGap hnext]

/-- The characters of each token of a source text, bad characters included. -/
def tokenTexts (source : String) : List (List Char) :=
  (rawTokensOf source).dropLast.map fun token ↦ (token.span.slice source).toList

section Tokens

variable (source : String)

theorem tokenTexts_eq :
    tokenTexts source = ((ofSource source).snippets source).map Snippet.text := by
  rw [tokenTexts, rawTokensOf, snippets, ← List.map_dropLast, List.map_map, List.map_map]
  rfl

theorem kinds_rawTokensOf :
    (rawTokensOf source).map Token.kind =
      ((ofSource source).snippets source).map Snippet.kind ++ [.eof] := by
  rw [rawTokensOf, List.map_map]
  exact kinds_rawLexemes source (ofSource source)

theorem kinds_dropLast :
    (rawTokensOf source).dropLast.map Token.kind =
      ((ofSource source).snippets source).map Snippet.kind := by
  rw [List.map_dropLast, kinds_rawTokensOf, List.dropLast_concat]

theorem snippet_mem {token : Token} (h : token ∈ (rawTokensOf source).dropLast) :
    ⟨token.kind, (token.span.slice source).toList⟩ ∈ (ofSource source).snippets source := by
  rw [rawTokensOf, ← List.map_dropLast] at h
  obtain ⟨lexeme, hlexeme, rfl⟩ := List.mem_map.1 h
  exact List.mem_map_of_mem hlexeme

end Tokens

/-- The text with the same tokens and the given separators between them. -/
def respaced (separators : List (List Char)) (source : String) : String :=
  String.ofList (interleave (tokenTexts source) separators)

theorem snippets_respaced (source : String) {separators : List (List Char)}
    (hseparators : ∀ separator ∈ separators, IsSeparator separator)
    (hlength : separators.length = (tokenTexts source).length - 1) :
    (ofSource (respaced separators source)).snippets (respaced separators source) =
      (ofSource source).snippets source := by
  rw [tokenTexts_eq, List.length_map] at hlength
  apply (behind_ofSource _).snippets_interleave (behind_ofSource source).separable hseparators
    hlength .nil
  rw [← tokenTexts_eq]
  exact String.toList_ofList

end Cursor

open Cursor

/-- Other separators between the tokens of a text leave their kinds and their texts as they are, so
that changing the separators again has the effect of changing them once. Each token reads as itself
alone, too. -/
theorem tokens_respaced (source : String) {separators : List (List Char)}
    (hseparators : ∀ separator ∈ separators, IsSeparator separator)
    (hlength : separators.length = (tokenTexts source).length - 1) :
    (rawTokensOf (respaced separators source)).map Token.kind =
        (rawTokensOf source).dropLast.map Token.kind ++ [.eof] ∧
      tokenTexts (respaced separators source) = tokenTexts source ∧
      respaced separators (respaced separators source) = respaced separators source ∧
      ∀ token ∈ (rawTokensOf source).dropLast,
        (rawTokensOf (token.span.slice source)).map Token.kind = [token.kind, .eof] := by
  have hsnippets := snippets_respaced source hseparators hlength
  have htexts : tokenTexts (respaced separators source) = tokenTexts source := by
    rw [tokenTexts_eq, tokenTexts_eq, hsnippets]
  refine ⟨?_, htexts, ?_, fun token hmem ↦ ?_⟩
  · rw [kinds_rawTokensOf, kinds_dropLast, hsnippets]
  · rw [respaced, htexts]
    rfl
  · have hreads := (behind_ofSource source).separable.alone _ (snippet_mem source hmem)
    have hnone : ∀ separator ∈ ([] : List (List Char)), IsSeparator separator :=
      fun _ hseparator ↦ absurd hseparator List.not_mem_nil
    have halone := (behind_ofSource (token.span.slice source)).snippets_interleave (.last hreads)
      hnone rfl .nil (List.append_nil _).symm
    rw [kinds_rawTokensOf, halone]
    rfl

/-- A text with a bad character, and with a string whose quote is missing. -/
def crowded : String :=
  "a<=#'b"

theorem crowded_tokens :
    rawTokensOf crowded = [⟨.identifier "a", ⟨⟨1, 1, 0⟩, 1⟩⟩,
      ⟨.operator .lessOrEqual, ⟨⟨1, 2, 1⟩, 2⟩⟩, ⟨.bad, ⟨⟨1, 4, 3⟩, 1⟩⟩,
      ⟨.string "b", ⟨⟨1, 5, 4⟩, 2⟩⟩, ⟨.eof, ⟨⟨1, 7, 6⟩, 1⟩⟩] := by
  rw [rawTokensOf, rawLexemes_of_more (by decide), rawLexemes_of_more (by decide),
    rawLexemes_of_more (by decide), rawLexemes_of_more (by decide), rawLexemes_of_eof (by decide)]
  rfl

theorem isSeparator_crowded :
    ∀ separator ∈ [" ".toList, "\t/*;*/".toList, " //c\n".toList], IsSeparator separator := by
  have hinside : NeverCloses [';'] := by
    unfold NeverCloses
    decide
  have honeLine : '\n' ∉ ['c'] := by decide
  have hblock : IsGap false "/*;*/".toList := .item (.blockComment hinside) .nil
  have hline : IsGap false "//c\n".toList := .item (.lineComment honeLine) .nil
  simp only [List.forall_mem_cons]
  exact ⟨⟨' ', [], rfl, by decide, .nil⟩, ⟨'\t', _, rfl, by decide, hblock⟩,
    ⟨' ', _, rfl, by decide, hline⟩, fun _ hmem ↦ absurd hmem List.not_mem_nil⟩

/-- With gaps of all sorts between them, the same tokens are read, and so is the string alone. -/
theorem crowded_respaced :
    (rawTokensOf "a <=\t/*;*/# //c\n'b").map Token.kind =
        [.identifier "a", .operator .lessOrEqual, .bad, .string "b", .eof] ∧
      (rawTokensOf "'b").map Token.kind = [.string "b", .eof] := by
  have htexts : tokenTexts crowded = ["a".toList, "<=".toList, "#".toList, "'b".toList] := by
    rw [tokenTexts, crowded_tokens]
    rfl
  have hlength : 3 = (tokenTexts crowded).length - 1 := by rw [htexts]; rfl
  obtain ⟨hkinds, -, -, halone⟩ := tokens_respaced crowded isSeparator_crowded hlength
  rw [respaced, htexts, crowded_tokens] at hkinds
  rw [crowded_tokens] at halone
  exact ⟨hkinds, halone ⟨.string "b", ⟨⟨1, 5, 4⟩, 2⟩⟩ (by simp)⟩

end Slang
