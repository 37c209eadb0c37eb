import Slang.Proofs.StringLiterals

/-!
# Where words end

A word is a letter or underscore and the word characters behind it. Digits are word characters, too,
so a word can begin behind a digit, but only where no longer one begins further in front: reading
token by token never stops inside of a word.
-/

namespace Slang

/-- A letter or underscore, with letters, digits and underscores behind it. -/
def IsWord : List Char → Prop
  | [] => False
  | first :: rest => (first.isAlpha = true ∨ first = '_') ∧
      ∀ character ∈ rest, isWordCharacter character = true

/-- No word of a text reaches over the place between its two parts. -/
def Boundary (before after : List Char) : Prop :=
  ∀ left right, left <:+ before → right <+: after → IsWord (left ++ right) → left = [] ∨ right = []

/-- A word that is part of no longer one. -/
structure IsMaximalWord (before word after : List Char) : Prop where
  isWord : IsWord word
  maximal : ∀ left right, left <:+ before → right <+: after → IsWord (left ++ word ++ right) →
    left = [] ∧ right = []

theorem IsWord.isWordCharacter {word : List Char} (h : IsWord word) :
    ∀ character ∈ word, isWordCharacter character = true := by
  cases word with
  | nil => cases h
  | cons first rest => exact List.forall_mem_cons.2 ⟨isWordCharacter_of_begins h.1, h.2⟩

/-- No word begins with a digit. -/
theorem IsWord.isDigit_head {first : Char} {rest : List Char} (h : IsWord (first :: rest)) :
    first.isDigit = false := by
  rcases h.1 with halpha | rfl
  · refine Bool.eq_false_iff.2 fun hdigit ↦ ?_
    have hletter := Text.toNat_of_isAlpha halpha
    have hrange := Text.toNat_of_isDigit hdigit
    omega
  · decide

/-! ## Boundaries -/

section Boundary

variable {before after : List Char}

theorem boundary_start (after : List Char) : Boundary [] after :=
  fun _ _ hleft _ _ ↦ .inl (List.suffix_nil.1 hleft)

theorem boundary_end (before : List Char) : Boundary before [] :=
  fun _ _ _ hright _ ↦ .inr (List.prefix_nil.1 hright)

theorem boundary_of_last {last : Char} (h : isWordCharacter last = false) :
    Boundary (before ++ [last]) after := by
  intro left right hleft _ hword
  rcases List.suffix_concat_iff.1 hleft with rfl | ⟨front, rfl, -⟩
  · exact .inl rfl
  · have hlast := hword.isWordCharacter last (by simp)
    rw [h] at hlast
    cases hlast

theorem boundary_of_head (h : ∀ character ∈ after.head?, isWordCharacter character = false) :
    Boundary before after := by
  cases after with
  | nil => exact boundary_end before
  | cons first rest =>
    intro left right _ hright hword
    rcases List.prefix_cons_iff.1 hright with rfl | ⟨more, rfl, -⟩
    · exact .inr rfl
    · have hfirst := hword.isWordCharacter first (by simp)
      rw [h first rfl] at hfirst
      cases hfirst

/-- Digits can be passed: a word that reaches over the place behind them begins in front of them. -/
theorem Boundary.digits {digits : List Char} (h : Boundary before (digits ++ after))
    (hdigits : ∀ character ∈ digits, character.isDigit = true) :
    Boundary (before ++ digits) after := by
  intro left right hleft hright hword
  rcases List.suffix_or_suffix_of_suffix hleft (List.suffix_append before digits) with
    hinside | ⟨front, rfl⟩
  · cases left with
    | nil => exact .inl rfl
    | cons first left =>
      have hfirst := hdigits first (hinside.subset (List.mem_cons_self ..))
      rw [hword.isDigit_head] at hfirst
      cases hfirst
  · rw [List.append_assoc] at hword
    have hfront : front <:+ before := List.suffix_append_self_iff.1 hleft
    have hback : digits ++ right <+: digits ++ after :=
      (List.prefix_append_right_inj digits).2 hright
    rcases h front (digits ++ right) hfront hback hword with rfl | hnil
    · cases digits with
      | nil => exact .inl rfl
      | cons digit digits =>
        have hdigit := hdigits digit (List.mem_cons_self ..)
        rw [IsWord.isDigit_head hword] at hdigit
        cases hdigit
    · exact .inr (List.append_eq_nil_iff.1 hnil).2

/-- A word between a boundary and a character of another sort is maximal. -/
theorem Boundary.isMaximalWord {word : List Char} (h : Boundary before (word ++ after))
    (hword : IsWord word) (hafter : ∀ character ∈ after.head?, isWordCharacter character = false) :
    IsMaximalWord before word after := by
  refine ⟨hword, fun left right hleft hright hlonger ↦ ?_⟩
  have hnonempty : word ≠ [] := by
    rintro rfl
    exact hword
  constructor
  · rw [List.append_assoc] at hlonger
    have hback : word ++ right <+: word ++ after := (List.prefix_append_right_inj word).2 hright
    rcases h left _ hleft hback hlonger with hnil | hnil
    · exact hnil
    · exact absurd (List.append_eq_nil_iff.1 hnil).1 hnonempty
  · have hplace : Boundary (left ++ word) after := boundary_of_head hafter
    rcases hplace _ _ List.suffix_rfl hright hlonger with hnil | hnil
    · exact absurd (List.append_eq_nil_iff.1 hnil).2 hnonempty
    · exact hnil

end Boundary

/-! ## Tokens and gaps end at boundaries -/

theorem Trivia.IsGap.exists_last {gap : List Char} (h : IsGap false gap) (hgap : gap ≠ []) :
    ∃ front last, gap = front ++ [last] ∧ isWordCharacter last = false := by
  induction h with
  | nil => exact absurd rfl hgap
  | @item item rest first _ ih =>
    by_cases hrest : rest = []
    · rw [hrest, List.append_nil]
      cases first with
      | @blank character isBlank =>
        exact ⟨[], character, rfl, Text.isWordCharacter_of_isBlank isBlank⟩
      | @lineComment comment oneLine =>
        exact ⟨'/' :: '/' :: comment, '\n', rfl, by decide⟩
      | @blockComment comment inside =>
        exact ⟨'/' :: '*' :: (comment ++ ['*']), '/', by simp, by decide⟩
    · obtain ⟨front, last, rfl, hlast⟩ := ih hrest
      exact ⟨item ++ front, last, (List.append_assoc ..).symm, hlast⟩
  | lastLine oneLine last => cases last

theorem Symbol.isWordCharacter_of_ofCharacter? {character : Char} {sign : Symbol}
    (h : ofCharacter? character = some sign) : isWordCharacter character = false := by
  unfold ofCharacter? at h
  split at h
  all_goals first
    | decide
    | cases h

theorem IsQuote.isWordCharacter {quote : Char} (h : IsQuote quote) :
    isWordCharacter quote = false := by
  rcases h with rfl | rfl <;> decide

theorem head?_dropWhile {test : Char → Bool} {text : List Char} {character : Char}
    (h : character ∈ (text.dropWhile test).head?) : test character = false := by
  have hhead := List.head?_dropWhile_not test text
  rwa [h] at hhead

theorem drop_takeWhile (test : Char → Bool) (text : List Char) :
    text.drop (text.takeWhile test).length = text.dropWhile test := by
  have hsplit := congrArg (List.drop (text.takeWhile test).length)
    (List.takeWhile_append_dropWhile (p := test) (l := text))
  rwa [List.drop_left, eq_comm] at hsplit

namespace Numeral

/-- The characters of a numeral. -/
def text (numeral : Numeral) : List Char :=
  numeral.whole ++ numeral.fraction.elim [] ('.' :: ·)

/-- The digits on both sides of the point. -/
def digits (numeral : Numeral) : List Char :=
  numeral.whole ++ numeral.fraction.getD []

theorem length_text (numeral : Numeral) : numeral.text.length = numeral.length := by
  obtain ⟨whole, fraction⟩ := numeral
  cases fraction with
  | none => simp [text, length]
  | some fraction =>
    simp only [text, length, Option.elim, List.length_append, List.length_cons]
    omega

/-- A numeral is read to its end: no digit follows, and a point only if it has one already. -/
theorem exists_after (source : List Char) :
    ∃ after, source = (ofText source).text ++ after ∧
      (∀ character ∈ (ofText source).digits, character.isDigit = true) ∧
      ∀ character ∈ after.head?, character.isDigit = false ∧
        ((ofText source).fraction = none → character ≠ '.') := by
  have hwhole : ∀ character ∈ source.takeWhile Char.isDigit, character.isDigit = true :=
    fun character hmem ↦ List.mem_takeWhile_imp hmem
  have hrest : ∀ character ∈ (source.dropWhile Char.isDigit).head?, character.isDigit = false :=
    fun character hmem ↦ head?_dropWhile hmem
  rw [← List.takeWhile_append_dropWhile (p := Char.isDigit) (l := source)]
  generalize source.takeWhile Char.isDigit = whole at *
  generalize source.dropWhile Char.isDigit = rest at *
  by_cases hpoint : rest.head? = some '.'
  · obtain ⟨rest, rfl⟩ := List.head?_eq_some_iff.1 hpoint
    rw [ofText_point hwhole]
    refine ⟨rest.dropWhile Char.isDigit, ?_, ?_, fun character hmem ↦ ⟨head?_dropWhile hmem, ?_⟩⟩
    · simp [text]
    · intro character hmem
      exact (List.mem_append.1 hmem).elim (hwhole character) List.mem_takeWhile_imp
    · intro hnone
      cases hnone
  · have hafter : ∀ character ∈ rest.head?, character.isDigit = false ∧ character ≠ '.' := by
      intro character hmem
      refine ⟨hrest character hmem, ?_⟩
      rintro rfl
      exact hpoint hmem
    rw [ofText_whole hwhole hafter]
    refine ⟨rest, by simp [text], by simpa [digits] using hwhole, fun character hmem ↦ ?_⟩
    exact ⟨(hafter character hmem).1, fun _ ↦ (hafter character hmem).2⟩

theorem boundary {numeral : Numeral}
    (hdigits : ∀ character ∈ numeral.digits, character.isDigit = true) {before after : List Char}
    (h : Boundary before (numeral.text ++ after)) : Boundary (before ++ numeral.text) after := by
  obtain ⟨whole, fraction⟩ := numeral
  cases fraction with
  | none =>
    simp only [text, digits, Option.elim, Option.getD, List.append_nil] at h hdigits ⊢
    exact h.digits hdigits
  | some fraction =>
    have hpoint : Boundary (before ++ whole ++ ['.']) (fraction ++ after) :=
      boundary_of_last (by decide)
    have hfraction := hpoint.digits fun character hmem ↦
      hdigits character (List.mem_append_right _ hmem)
    simpa [text] using hfraction

end Numeral

namespace Shape

/-- Behind a token at a boundary is a boundary. -/
theorem boundary {before : List Char} {first : Char} {rest : List Char}
    (h : Boundary before (first :: rest)) :
    Boundary (before ++ (first :: rest).take (ofText first rest).length)
      ((first :: rest).drop (ofText first rest).length) := by
  cases form first rest with
  | pair sign begins follows shape =>
    obtain ⟨rest, rfl⟩ := List.head?_eq_some_iff.1 follows
    rw [shape]
    have hequals : Boundary (before ++ [first] ++ ['=']) rest := boundary_of_last (by decide)
    simpa using hequals
  | quoted begins shape =>
    have hquote : IsQuote first := begins
    rw [shape, ofQuoted]
    dsimp only
    rcases Quoted.closed_or_neverClosed hquote.ne_backslash rest with
      ⟨-, -, htake⟩ | ⟨-, hlength, -⟩
    · rw [htake, Quoted.literal, ← List.cons_append, ← List.append_assoc]
      exact boundary_of_last hquote.isWordCharacter
    · rw [hlength, ← List.length_cons, List.drop_length]
      exact boundary_end _
  | numeral begins shape =>
    obtain ⟨after, hafter, hdigits, -⟩ := Numeral.exists_after (first :: rest)
    rw [shape]
    dsimp only
    generalize Numeral.ofText (first :: rest) = numeral at *
    rw [hafter] at h ⊢
    rw [← Numeral.length_text, List.take_left, List.drop_left]
    exact Numeral.boundary hdigits h
  | word begins shape =>
    rw [shape]
    apply boundary_of_head
    rw [drop_takeWhile]
    exact fun character hmem ↦ head?_dropWhile hmem
  | symbol sign spelled alone shape =>
    rw [shape]
    exact boundary_of_last (Symbol.isWordCharacter_of_ofCharacter? spelled)
  | bad noQuote noNumeral noWord noSymbol shape =>
    rw [shape]
    apply boundary_of_last
    rw [not_or] at noNumeral noWord
    simp [isWordCharacter, Char.isAlphanum, noNumeral.1, noWord]

end Shape

namespace Cursor

variable {source : String} {before : List Char} {cursor : Cursor}

/-- Behind a gap at a boundary is a boundary. -/
theorem Behind.boundary_start (h : cursor.Behind source before)
    (hboundary : Boundary before cursor.text) :
    ∃ passed, cursor.start.Behind source passed ∧ Boundary passed cursor.start.text := by
  obtain ⟨gap, htext, hbehind, hgap, -⟩ := h.start
  refine ⟨before ++ gap, hbehind, ?_⟩
  cases hstart : cursor.start.text with
  | nil => exact boundary_end _
  | cons first rest =>
    rw [hstart] at hgap htext
    by_cases hnil : gap = []
    · rw [hnil, List.nil_append] at htext
      rwa [hnil, List.append_nil, ← htext]
    · obtain ⟨front, last, rfl, hlast⟩ := hgap.exists_last hnil
      rw [← List.append_assoc]
      exact boundary_of_last hlast

/-- Reading never stops inside of a word. -/
theorem Reached.exists_boundary (h : Reached source cursor) :
    ∃ before, cursor.Behind source before ∧ Boundary before cursor.text := by
  induction h with
  | start => exact ⟨[], behind_ofSource source, boundary_start _⟩
  | @next cursor _ more ih =>
    obtain ⟨before, hbehind, hboundary⟩ := ih
    obtain ⟨passed, hstart, hplace⟩ := hbehind.boundary_start hboundary
    obtain ⟨first, rest, hfirst, hcomment⟩ := exists_token_of_more more
    have hnext := hstart.advance (Shape.ofText first rest).length
    rw [readRaw_of_token hfirst hcomment]
    rw [hfirst] at hplace hnext
    refine ⟨_, hnext, ?_⟩
    have hbehindToken := Shape.boundary hplace
    rw [← hfirst] at hbehindToken ⊢
    exact hbehindToken

end Cursor

end Slang
