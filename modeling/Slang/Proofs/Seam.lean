import Slang.Proofs.Lexemes
import Slang.Proofs.Relocation

/-!
# The tokens of two texts with a line break between them

Nothing that begins in the first text goes on behind the break: trivia, words and numerals stop
there at the latest, and a string or comment that does not would have been reported. So the tokens
are those of the first text without its end, and those of the second one with their spans moved.
-/

namespace Slang

/-! ## Moved texts -/

/-- A location so many lines and bytes further on, in the same column. -/
def Location.moved (lines bytes : Nat) (location : Location) : Location :=
  ⟨location.line + lines, location.column, location.offset + bytes⟩

def Span.moved (lines bytes : Nat) (span : Span) : Span :=
  ⟨span.start.moved lines bytes, span.length⟩

def Cursor.moved (lines bytes : Nat) (cursor : Cursor) : Cursor :=
  ⟨cursor.location.moved lines bytes, cursor.text⟩

def Reading.moved (lines bytes : Nat) (reading : Reading) : Reading :=
  ⟨reading.token.relocate (Span.moved lines bytes),
    reading.reports.map (Diagnostic.relocate (Span.moved lines bytes)),
    reading.next.moved lines bytes⟩

section Moved

variable {lines bytes : Nat}

theorem Location.after_moved (location : Location) (text : List Char) :
    (location.moved lines bytes).after text = (location.after text).moved lines bytes := by
  induction text generalizing location with
  | nil => rfl
  | cons character text ih =>
    have hstep : (location.moved lines bytes).step character =
        (location.step character).moved lines bytes := by
      unfold step moved
      split <;> simp only [Location.mk.injEq, true_and] <;> omega
    rw [after_cons, after_cons, hstep, ih]

namespace Cursor

theorem advance_moved (count : Nat) (cursor : Cursor) :
    (cursor.moved lines bytes).advance count = (cursor.advance count).moved lines bytes := by
  simp only [advance, moved, Location.after_moved]

theorem problems_moved (start next : Cursor) (first : Char) (shape : Shape) :
    problems (start.moved lines bytes) (next.moved lines bytes) first shape =
      (problems start next first shape).map (Diagnostic.relocate (Span.moved lines bytes)) := by
  unfold problems
  split
  · rfl
  · split <;> rfl

theorem readRaw_moved (cursor : Cursor) :
    (cursor.moved lines bytes).readRaw = cursor.readRaw.moved lines bytes := by
  have hstart : (cursor.moved lines bytes).start = cursor.start.moved lines bytes :=
    advance_moved _ _
  have htext : (cursor.moved lines bytes).start.text = cursor.start.text := by rw [hstart]; rfl
  rcases cursor.start_cases with hend | hcomment | ⟨first, rest, hfirst, hcomment⟩
  · rw [readRaw_of_end hend, readRaw_of_end (htext.trans hend), hstart]
    rfl
  · have hcomment' : opensComment (cursor.moved lines bytes).start.text = true := by rwa [htext]
    rw [readRaw_of_comment hcomment, readRaw_of_comment hcomment', hstart]
    simp only [toEnd, moved, Location.after_moved]
    rfl
  · rw [readRaw_of_token hfirst hcomment, readRaw_of_token (htext.trans hfirst) hcomment, hstart]
    dsimp only
    rw [advance_moved, problems_moved]
    rfl

theorem read_moved (cursor : Cursor) :
    (cursor.moved lines bytes).read = cursor.read.moved lines bytes := by
  induction cursor using read_induction with
  | good cursor hgood =>
    have hgood' : (cursor.moved lines bytes).readRaw.token.kind ≠ .bad := by
      rw [readRaw_moved]
      exact hgood
    rw [read_of_ne_bad hgood, read_of_ne_bad hgood', readRaw_moved]
  | bad cursor hbad ih =>
    have hbad' : (cursor.moved lines bytes).readRaw.token.kind = .bad := by
      rw [readRaw_moved]
      exact hbad
    have hnext : (cursor.readRaw.moved lines bytes).next = cursor.readRaw.next.moved lines bytes :=
      rfl
    rw [read_of_bad hbad, read_of_bad hbad', readRaw_moved, hnext, ih]
    simp [Reading.moved]

theorem lexemeList_moved (cursor : Cursor) :
    (cursor.moved lines bytes).lexemeList =
      cursor.lexemeList.map (Lexeme.relocate (Span.moved lines bytes)) := by
  induction cursor using lexeme_induction with
  | last cursor heof =>
    have heof' : (cursor.moved lines bytes).read.token.kind = .eof := by
      rw [read_moved]
      exact heof
    rw [lexemeList_of_eof heof, lexemeList_of_eof heof', read_moved]
    rfl
  | more cursor hmore ih =>
    have hmore' : (cursor.moved lines bytes).read.token.kind ≠ .eof := by
      rw [read_moved]
      exact hmore
    rw [lexemeList_of_more hmore, lexemeList_of_more hmore', read_moved, List.map_cons, ← ih]
    rfl

end Cursor

end Moved

/-! ## Trivia in front of a line break -/

namespace Trivia

/-- Where a walk over the trivia of a text ends, with and without a line break and more text behind
it: at the break, earlier, or with a comment left open, which may have begun before the text. -/
inductive Ending (mode : Trivia) (passed : Nat) (text rest : List Char) (short long : Nat) : Prop
  | atBreak (atEnd : short = passed + text.length)
      (goesOn : long = lengthFrom blank (passed + text.length + 1) rest)
  | earlier {count : Nat} (within : count < text.length) (stops : short = passed + count)
      (same : long = short)
  | openBefore {before : Nat} (inside : mode = blockComment before) (opened : short = before)
  | opens {front back : List Char} (comment : text = front ++ '/' :: '*' :: back)
      (opened : short = passed + front.length)

/-- The walk after some characters have been passed. -/
theorem Ending.step {mode mode' : Trivia} {passed short long : Nat} {text rest : List Char}
    (taken : List Char) (h : Ending mode' (passed + taken.length) text rest short long)
    (hmode : ∀ before, mode' = blockComment before → mode = blockComment before) :
    Ending mode passed (taken ++ text) rest short long := by
  have hlength : (taken ++ text).length = taken.length + text.length := List.length_append
  cases h with
  | atBreak atEnd goesOn =>
    refine .atBreak (by omega) ?_
    rw [goesOn, hlength, Nat.add_assoc passed]
  | earlier within stops same =>
    rename_i count
    exact .earlier (by omega : taken.length + count < _) (by omega) same
  | openBefore inside opened => exact .openBefore (hmode _ inside) opened
  | opens comment opened =>
    rename_i front back
    refine .opens (by rw [comment, List.append_assoc] : _ = (taken ++ front) ++ _) ?_
    rw [opened, List.length_append, Nat.add_assoc]

/-- A character in front of a line break that is none itself stands in the text. -/
theorem exists_of_append_eq_cons {text rest more : List Char} {character : Char}
    (h : text ++ '\n' :: rest = character :: more) (hne : character ≠ '\n') :
    ∃ back, text = character :: back := by
  cases text with
  | nil => exact absurd (List.cons.inj h).1.symm hne
  | cons first text => exact ⟨text, by rw [(List.cons.inj h).1]⟩

theorem lengthFrom_blank_of_isBlank {character : Char} (h : Text.isBlank character = true)
    (passed : Nat) (text : List Char) :
    lengthFrom blank passed (character :: text) = lengthFrom blank (passed + 1) text := by
  have hslash : character ≠ '/' := by
    rintro rfl
    rw [Text.isBlank_slash] at h
    cases h
  rw [lengthFrom]
  · exact if_pos h
  · exact fun _ heq ↦ absurd heq hslash
  · exact fun _ heq ↦ absurd heq hslash

theorem lengthFrom_ending (mode : Trivia) (passed : Nat) (text rest : List Char) :
    Ending mode passed text rest (lengthFrom mode passed text)
      (lengthFrom mode passed (text ++ '\n' :: rest)) := by
  fun_induction lengthFrom mode passed text with
  | case1 passed text ih => exact ih.step ['/', '/'] fun _ ↦ Trivia.noConfusion
  | case2 passed text ih =>
    -- If the comment is left open, it is one that this text opens.
    have hstep : Ending (blockComment passed) passed ('/' :: '*' :: text) rest _ _ :=
      ih.step ['/', '*'] fun _ ↦ id
    cases hstep with
    | atBreak atEnd goesOn => exact .atBreak atEnd goesOn
    | earlier within stops same => exact .earlier within stops same
    | openBefore inside opened =>
      cases inside
      exact .opens (rfl : _ = [] ++ _) opened
    | opens comment opened => exact .opens comment opened
  | case3 passed character text _ _ hblank ih =>
    rw [List.cons_append, lengthFrom_blank_of_isBlank hblank]
    exact ih.step [character] fun _ ↦ id
  | case4 passed character text hline hblock hblank =>
    -- A slash at the end of the text begins no comment with the line break behind it.
    refine .earlier (Nat.succ_pos _) rfl ?_
    rw [List.cons_append, lengthFrom]
    · exact if_neg hblank
    · intro more hslash htext
      obtain ⟨back, hback⟩ := exists_of_append_eq_cons htext (by decide)
      exact hline back hslash hback
    · intro more hslash htext
      obtain ⟨back, hback⟩ := exists_of_append_eq_cons htext (by decide)
      exact hblock back hslash hback
  | case5 passed =>
    refine .atBreak rfl ?_
    exact lengthFrom_blank_of_isBlank Text.isBlank_newline passed rest
  | case6 passed text ih => exact ih.step ['\n'] fun _ ↦ Trivia.noConfusion
  | case7 passed character text hne ih =>
    rw [List.cons_append, lengthFrom]
    · exact ih.step [character] fun _ ↦ id
    · exact hne
  | case8 passed => exact .atBreak rfl rfl
  | case9 before passed text ih => exact ih.step ['*', '/'] fun _ ↦ Trivia.noConfusion
  | case10 before passed character text hne ih =>
    rw [List.cons_append, lengthFrom]
    · exact ih.step [character] fun _ ↦ id
    · intro more hstar htext
      obtain ⟨back, hback⟩ := exists_of_append_eq_cons htext (by decide)
      exact hne back hstar hback
  | case11 before passed => exact .openBefore rfl rfl

/-- What a walk is in the middle of, with more characters in front. -/
def shifted (count : Nat) : Trivia → Trivia
  | blank => blank
  | lineComment => lineComment
  | blockComment before => blockComment (before + count)

theorem lengthFrom_shifted (count : Nat) (mode : Trivia) (passed : Nat) (text : List Char) :
    lengthFrom (mode.shifted count) (passed + count) text =
      lengthFrom mode passed text + count := by
  fun_induction lengthFrom mode passed text with
  | case1 passed text ih =>
    rw [← ih, Nat.add_right_comm]
    rfl
  | case2 passed text ih =>
    rw [← ih, Nat.add_right_comm]
    rfl
  | case3 passed character text _ _ hblank ih =>
    rw [← ih, Nat.add_right_comm]
    exact lengthFrom_blank_of_isBlank hblank _ _
  | case4 passed character text hline hblock hblank =>
    rw [shifted, lengthFrom]
    · exact if_neg hblank
    · exact hline
    · exact hblock
  | case5 passed => rfl
  | case6 passed text ih =>
    rw [← ih, Nat.add_right_comm]
    rfl
  | case7 passed character text hne ih =>
    rw [← ih, Nat.add_right_comm, shifted, lengthFrom]
    exact hne
  | case8 passed => rfl
  | case9 before passed text ih =>
    rw [← ih, Nat.add_right_comm]
    rfl
  | case10 before passed character text hne ih =>
    rw [← ih, Nat.add_right_comm, shifted, lengthFrom]
    exact hne
  | case11 before passed => rfl

end Trivia

/-! ## Tokens in front of a line break -/

namespace Cursor

/-- The cursor with a line break and more text behind its text. -/
def extended (rest : List Char) (cursor : Cursor) : Cursor :=
  ⟨cursor.location, cursor.text ++ '\n' :: rest⟩

/-- The cursor behind the line break. -/
def beyond (rest : List Char) (cursor : Cursor) : Cursor :=
  ⟨cursor.location.after (cursor.text ++ ['\n']), rest⟩

theorem advance_extended {count : Nat} {cursor : Cursor} (h : count ≤ cursor.text.length)
    (rest : List Char) :
    (cursor.extended rest).advance count = (cursor.advance count).extended rest := by
  simp only [advance, extended, List.take_append_of_le_length h, List.drop_append_of_le_length h]

/-- Trivia that reach the line break go on behind it, and others end where they did. -/
theorem start_extended (cursor : Cursor) (rest : List Char) :
    (cursor.start.text = [] ∧ (cursor.extended rest).start = (cursor.beyond rest).start) ∨
      (cursor.start.text ≠ [] ∧ (cursor.extended rest).start = cursor.start.extended rest) ∨
      opensComment cursor.start.text = true := by
  obtain ⟨location, text⟩ := cursor
  have hending := Trivia.lengthFrom_ending .blank 0 text rest
  cases hending with
  | atBreak atEnd goesOn =>
    have hlength : Trivia.length text = text.length := by simpa [Trivia.length] using atEnd
    have hlong : Trivia.length (text ++ '\n' :: rest) = text.length + 1 + Trivia.length rest := by
      have hshifted := Trivia.lengthFrom_shifted (text.length + 1) .blank 0 rest
      simp only [Nat.zero_add] at goesOn hshifted
      rw [Trivia.length, goesOn, Nat.add_comm _ (Trivia.length rest)]
      exact hshifted
    refine .inl ⟨by simp [start, advance, hlength], ?_⟩
    have htext : text ++ '\n' :: rest = (text ++ ['\n']) ++ rest := by simp
    have hcount : text.length + 1 = (text ++ ['\n']).length := by simp
    simp only [start, advance, extended, beyond, hlong]
    rw [htext, hcount, List.take_length_add_append, List.drop_length_add_append,
      Location.after_append]
  | earlier within stops same =>
    rename_i count
    have hcount : Trivia.length text = count := by simpa [Trivia.length] using stops
    have hlong : Trivia.length (text ++ '\n' :: rest) = count := same.trans hcount
    refine .inr (.inl ⟨?_, ?_⟩)
    · simpa [start, advance, hcount] using within
    · have hstart : (Cursor.mk location text).start = (Cursor.mk location text).advance count := by
        rw [start, hcount]
      rw [hstart, ← advance_extended (Nat.le_of_lt within), start]
      exact congrArg (advance · _) hlong
  | openBefore inside opened => cases inside
  | opens comment opened =>
    rename_i front back
    have hcount : Trivia.length text = front.length := by simpa [Trivia.length] using opened
    have hdrop : (Cursor.mk location text).start.text = '/' :: '*' :: back := by
      rw [start, advance]
      simp only [hcount]
      rw [comment, List.drop_left]
    refine .inr (.inr ?_)
    rw [hdrop]
    rfl

theorem opensComment_extended (text rest : List Char) :
    opensComment (text ++ '\n' :: rest) = opensComment text := by
  unfold opensComment
  match text with
  | [] => rfl
  | [first] => split <;> simp_all
  | first :: second :: text => split <;> split <;> simp_all

end Cursor

theorem takeWhile_extended {test : Char → Bool} (htest : test '\n' = false)
    (text rest : List Char) : (text ++ '\n' :: rest).takeWhile test = text.takeWhile test := by
  induction text with
  | nil => exact List.takeWhile_cons_of_neg (by simp [htest])
  | cons character text ih =>
    rw [List.cons_append, List.takeWhile_cons, List.takeWhile_cons, ih]

theorem Quoted.ofText_append {quote : Char} {text : List Char}
    (h : (ofText quote text).closed = true) (rest : List Char) :
    ofText quote (text ++ rest) = ofText quote text := by
  fun_induction ofText quote text with
  | case1 => cases h
  | case2 =>
    cases rest <;> exact if_pos rfl
  | case3 => cases h
  | case4 next text => exact if_pos rfl
  | case5 character next text hquote hescape ih =>
    rw [List.cons_append, List.cons_append, ofText, if_neg hquote, if_pos hescape, ih h]
  | case6 character next text hquote hescape ih =>
    rw [List.cons_append, List.cons_append, ofText, if_neg hquote, if_neg hescape]
    exact congrArg (push character 1) (ih h)

theorem Quoted.length_ofText_le (quote : Char) (text : List Char) :
    (ofText quote text).length ≤ text.length := by
  fun_induction ofText quote text with
  | case1 => exact Nat.le_refl 0
  | case2 => exact Nat.le_refl 1
  | case3 => exact Nat.le_refl 1
  | case4 next text => exact Nat.succ_le_succ (Nat.zero_le _)
  | case5 character text hquote hescape ih =>
    simp only [push, List.length_cons]
    omega
  | case6 character next text hquote hescape ih =>
    simp only [push, List.length_cons] at ih ⊢
    omega

namespace Numeral

theorem ofText_extended (text rest : List Char) :
    ofText (text ++ '\n' :: rest) = ofText text := by
  unfold ofText
  dsimp only
  rw [takeWhile_extended (by decide),
    List.drop_append_of_le_length ((List.takeWhile_prefix _).length_le)]
  generalize text.drop (text.takeWhile Char.isDigit).length = back
  match back with
  | [] => rfl
  | first :: back =>
    by_cases hpoint : first = '.'
    · subst hpoint
      have hdigits := takeWhile_extended (by decide : Char.isDigit '\n' = false) back rest
      exact congrArg (fun digits ↦ Numeral.mk _ (some digits)) hdigits
    · simp [hpoint]

theorem length_ofText_le (text : List Char) : (ofText text).length ≤ text.length := by
  have hwhole := (List.takeWhile_prefix Char.isDigit (l := text)).length_le
  unfold ofText
  dsimp only
  split
  · rename_i back hback
    have hlength := congrArg List.length hback
    have hfraction := (List.takeWhile_prefix Char.isDigit (l := back)).length_le
    simp only [List.length_drop, List.length_cons] at hlength
    simp only [length]
    omega
  · exact hwhole

end Numeral

namespace Shape

theorem ofText_extended {first : Char} {text : List Char}
    (h : (ofText first text).missingQuote = none) (rest : List Char) :
    ofText first (text ++ '\n' :: rest) = ofText first text := by
  have hhead (test : Char → Bool) (htest : test '\n' = false) :
      (text ++ '\n' :: rest).head?.any test = text.head?.any test := by
    cases text with
    | nil => exact htest
    | cons => rfl
  have hequals : (text ++ '\n' :: rest).head? = some '=' ↔ text.head? = some '=' := by
    cases text with
    | nil => simp
    | cons => rfl
  unfold ofText at h ⊢
  dsimp only at h ⊢
  rw [hhead Char.isDigit (by decide), ← List.cons_append, Numeral.ofText_extended,
    takeWhile_extended (by decide)]
  simp only [hequals]
  split
  · rfl
  split
  · rfl
  split
  · rename_i hless hgreater hquote
    rw [if_neg hless, if_neg hgreater, if_pos hquote] at h
    rw [Quoted.ofText_append (closed_of_missingQuote h)]
  split
  · rfl
  split <;> rfl

theorem length_ofText_le (first : Char) (text : List Char) :
    (ofText first text).length ≤ (first :: text).length := by
  have hpair : text.head? = some '=' → 2 ≤ (first :: text).length := by
    cases text <;> simp
  unfold ofText
  dsimp only
  split
  · rename_i hless
    exact hpair hless.2
  split
  · rename_i hgreater
    exact hpair hgreater.2
  split
  · exact Nat.succ_le_succ (Quoted.length_ofText_le first text)
  split
  · exact Numeral.length_ofText_le _
  split
  · exact (List.takeWhile_prefix _).length_le
  split <;> exact Nat.succ_le_succ (Nat.zero_le _)

end Shape

namespace Cursor

theorem problems_of_intact {shape : Shape} (hquote : shape.missingQuote = none)
    (hkind : shape.kind ≠ .bad) (start next : Cursor) (first : Char) :
    problems start next first shape = [] := by
  unfold problems
  rw [hquote]
  exact if_neg hkind

/-- A token that is read without reports is the same in front of a line break. -/
theorem readRaw_extended {cursor : Cursor} (hclean : cursor.readRaw.reports = [])
    (hmore : cursor.readRaw.token.kind ≠ .eof) (rest : List Char) :
    (cursor.extended rest).readRaw =
      ⟨cursor.readRaw.token, [], cursor.readRaw.next.extended rest⟩ := by
  obtain ⟨first, text, htext, hcomment⟩ := exists_token_of_more hmore
  have hstart : (cursor.extended rest).start = cursor.start.extended rest := by
    rcases cursor.start_extended rest with ⟨hnil, -⟩ | ⟨-, hstart⟩ | hopen
    · simp [htext] at hnil
    · exact hstart
    · simp [htext, hcomment] at hopen
  have htext' : (cursor.extended rest).start.text = first :: (text ++ '\n' :: rest) := by
    rw [hstart, extended, htext]
    rfl
  have hcomment' : opensComment (first :: (text ++ '\n' :: rest)) = false :=
    (opensComment_extended (first :: text) rest).trans hcomment
  rw [readRaw_of_token htext hcomment] at hclean ⊢
  obtain ⟨hquote, hkind⟩ := problems_eq_nil hclean
  have hlength : (Shape.ofText first text).length ≤ cursor.start.text.length := by
    rw [htext]
    exact Shape.length_ofText_le first text
  rw [readRaw_of_token htext' hcomment', Shape.ofText_extended hquote, hstart]
  dsimp only
  rw [advance_extended hlength, problems_of_intact hquote hkind]
  rfl

theorem readRaw_congr {cursor other : Cursor} (h : cursor.start = other.start) :
    cursor.readRaw = other.readRaw := by
  unfold start at h
  unfold readRaw
  rw [h]

theorem read_congr {cursor other : Cursor} (h : cursor.readRaw = other.readRaw) :
    cursor.read = other.read := by
  by_cases hbad : cursor.readRaw.token.kind = .bad
  · have hbad' : other.readRaw.token.kind = .bad := h ▸ hbad
    rw [read_of_bad hbad, read_of_bad hbad', h]
  · rw [read_of_ne_bad hbad, read_of_ne_bad (h ▸ hbad), h]

theorem lexemeList_congr {cursor other : Cursor} (h : cursor.read = other.read) :
    cursor.lexemeList = other.lexemeList := by
  by_cases heof : cursor.read.token.kind = .eof
  · rw [lexemeList_of_eof heof, lexemeList_of_eof (h ▸ heof), h]
  · have hmore : other.read.token.kind ≠ .eof := h ▸ heof
    rw [lexemeList_of_more heof, lexemeList_of_more hmore, h]

/-- Behind the end of the first text, reading goes on behind the line break. -/
theorem readRaw_extended_of_eof {cursor : Cursor} (hclean : cursor.readRaw.reports = [])
    (heof : cursor.readRaw.token.kind = .eof) (rest : List Char) :
    (cursor.extended rest).readRaw = (cursor.beyond rest).readRaw := by
  refine readRaw_congr ?_
  rcases cursor.start_extended rest with ⟨-, hstart⟩ | ⟨htext, -⟩ | hopen
  · exact hstart
  · rcases cursor.start_cases with hend | hcomment | ⟨first, text, hfirst, hcomment⟩
    · exact absurd hend htext
    · rw [readRaw_of_comment hcomment] at hclean
      cases hclean
    · rw [readRaw_of_token hfirst hcomment] at heof
      exact absurd heof (Shape.kind_ofText_ne_eof first text)
  · rw [readRaw_of_comment hopen] at hclean
    cases hclean

/-- A bad character is reported. -/
theorem readRaw_ne_bad {cursor : Cursor} (hclean : cursor.readRaw.reports = []) :
    cursor.readRaw.token.kind ≠ .bad := by
  intro hbad
  have hmore : cursor.readRaw.token.kind ≠ .eof := by simp [hbad]
  obtain ⟨first, text, htext, hcomment⟩ := exists_token_of_more hmore
  rw [readRaw_of_token htext hcomment] at hclean hbad
  exact (problems_eq_nil hclean).2 hbad

theorem read_of_reports_nil {cursor : Cursor} (hclean : cursor.read.reports = []) :
    cursor.read = cursor.readRaw ∧ cursor.readRaw.reports = [] := by
  by_cases hbad : cursor.readRaw.token.kind = .bad
  · rw [read_of_bad hbad] at hclean
    exact absurd hbad (readRaw_ne_bad (List.append_eq_nil_iff.1 hclean).1)
  · rw [read_of_ne_bad hbad] at hclean ⊢
    exact ⟨rfl, hclean⟩

theorem beyond_advance (count : Nat) (rest : List Char) (cursor : Cursor) :
    (cursor.advance count).beyond rest = cursor.beyond rest := by
  simp only [beyond, advance]
  rw [← Location.after_append, ← List.append_assoc, List.take_append_drop]

theorem beyond_readRaw_next {cursor : Cursor} (hmore : cursor.readRaw.token.kind ≠ .eof)
    (rest : List Char) : cursor.readRaw.next.beyond rest = cursor.beyond rest := by
  obtain ⟨first, text, htext, hcomment⟩ := exists_token_of_more hmore
  rw [readRaw_of_token htext hcomment]
  dsimp only
  rw [beyond_advance, start, beyond_advance]

/-- The lexemes of a text without reports are followed, in place of its end, by those of what stands
behind the line break. -/
theorem lexemeList_extended {cursor : Cursor}
    (hclean : cursor.lexemeList.flatMap Lexeme.reports = []) (rest : List Char) :
    (cursor.extended rest).lexemeList =
      cursor.lexemeList.dropLast ++ (cursor.beyond rest).lexemeList := by
  induction cursor using lexeme_induction with
  | last cursor heof =>
    rw [lexemeList_of_eof heof] at hclean ⊢
    have hreports : cursor.read.reports = [] := by simpa [Reading.lexeme] using hclean
    obtain ⟨hread, hraw⟩ := read_of_reports_nil hreports
    rw [hread] at heof
    exact lexemeList_congr (read_congr (readRaw_extended_of_eof hraw heof rest))
  | more cursor hmore ih =>
    rw [lexemeList_of_more hmore, List.flatMap_cons, List.append_eq_nil_iff] at hclean
    obtain ⟨hread, hraw⟩ := read_of_reports_nil hclean.1
    have hextended : (cursor.extended rest).read =
        ⟨cursor.read.token, [], cursor.read.next.extended rest⟩ := by
      rw [hread] at hmore ⊢
      have hraw' := readRaw_extended hraw hmore rest
      have hgood : (cursor.extended rest).readRaw.token.kind ≠ .bad := by
        rw [hraw']
        exact readRaw_ne_bad hraw
      rw [read_of_ne_bad hgood, hraw']
    have hmore' : (cursor.extended rest).read.token.kind ≠ .eof := by rwa [hextended]
    have hlexeme : (cursor.extended rest).read.lexeme = cursor.read.lexeme := by
      rw [hextended, Reading.lexeme, Reading.lexeme, hread, hraw]
    have hbeyond : cursor.read.next.beyond rest = cursor.beyond rest := by
      rw [hread] at hmore ⊢
      exact beyond_readRaw_next hmore rest
    have hnext : cursor.read.next.lexemeList ≠ [] := List.cons_ne_nil _ _
    rw [lexemeList_of_more hmore', hlexeme, hextended, ih hclean.2, hbeyond,
      lexemeList_of_more hmore, List.dropLast_cons_of_ne_nil hnext, List.cons_append]

end Cursor

end Slang
