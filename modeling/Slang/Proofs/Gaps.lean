import Slang.Proofs.Seam

/-!
# What may stand between two tokens

A gap is a sequence of blanks, comments from `//` up to a line break and closed block comments; at
the end of a text a comment from `//` may also run to the end. The walk over trivia passes every
gap, and what it passes is a gap, behind which no trivia follow but possibly a block comment that is
never closed.
-/

namespace Slang

namespace Trivia

/-- The two characters that close a block comment stand nowhere in a text. -/
def NeverCloses (text : List Char) : Prop :=
  ¬ ['*', '/'] <:+: text

/-- A blank or a comment. The line break behind a comment from `//` is counted to it. -/
inductive Item : List Char → Prop
  | blank {character : Char} (isBlank : Text.isBlank character = true) : Item [character]
  | lineComment {comment : List Char} (oneLine : '\n' ∉ comment) :
      Item ('/' :: '/' :: (comment ++ ['\n']))
  | blockComment {comment : List Char} (inside : NeverCloses comment) :
      Item ('/' :: '*' :: (comment ++ ['*', '/']))

/-- Blanks and comments in turn. If nothing follows them, the last one may be a comment from `//`
without a line break. -/
inductive IsGap (atEnd : Bool) : List Char → Prop
  | nil : IsGap atEnd []
  | item {item rest : List Char} (first : Item item) (others : IsGap atEnd rest) :
      IsGap atEnd (item ++ rest)
  | lastLine {comment : List Char} (oneLine : '\n' ∉ comment) (last : atEnd = true) :
      IsGap atEnd ('/' :: '/' :: comment)

/-- A gap with a block comment behind it that is never closed. -/
def LeavesOpen (text : List Char) : Prop :=
  ∃ gap comment, text = gap ++ '/' :: '*' :: comment ∧ IsGap false gap ∧ NeverCloses comment

/-! ## Comments -/

theorem NeverCloses.nil : NeverCloses [] := by
  unfold NeverCloses
  decide

/-- A closing pair stands at the front of a text or behind its first character. -/
theorem neverCloses_cons {character : Char} {text : List Char} :
    NeverCloses (character :: text) ↔
      ¬ (character = '*' ∧ text.head? = some '/') ∧ NeverCloses text := by
  unfold NeverCloses
  rw [List.infix_cons_iff, not_or]
  cases text with
  | nil => simp
  | cons next text => simp [eq_comm]

/-- A block comment ends at the first closing pair, if there is one. -/
theorem exists_comment (text : List Char) :
    (∃ comment rest, text = comment ++ '*' :: '/' :: rest ∧ NeverCloses comment) ∨
      NeverCloses text := by
  induction text with
  | nil => exact .inr .nil
  | cons character text ih =>
    by_cases hcloses : character = '*' ∧ text.head? = some '/'
    · obtain ⟨rest, hrest⟩ := List.head?_eq_some_iff.1 hcloses.2
      exact .inl ⟨[], rest, by rw [hcloses.1, hrest]; rfl, .nil⟩
    · rcases ih with ⟨comment, rest, htext, hcomment⟩ | hnever
      · refine .inl ⟨character :: comment, rest, by rw [htext]; rfl, ?_⟩
        refine neverCloses_cons.2 ⟨fun hfront ↦ hcloses ⟨hfront.1, ?_⟩, hcomment⟩
        rw [htext, List.head?_append, hfront.2]
        rfl
      · exact .inr (neverCloses_cons.2 ⟨hcloses, hnever⟩)

/-! ## The walk over an item -/

theorem lengthFrom_blank (passed : Nat) (text : List Char) :
    lengthFrom blank passed text = passed + length text := by
  have hshifted := lengthFrom_shifted passed blank 0 text
  rwa [Nat.zero_add, Nat.add_comm] at hshifted

theorem lengthFrom_lineComment {comment : List Char} (h : '\n' ∉ comment) (passed : Nat)
    (rest : List Char) :
    lengthFrom lineComment passed (comment ++ rest) =
      lengthFrom lineComment (passed + comment.length) rest := by
  induction comment generalizing passed with
  | nil => rfl
  | cons character comment ih =>
    rw [List.mem_cons, not_or] at h
    rw [List.cons_append, lengthFrom, ih h.2, List.length_cons, Nat.add_assoc, Nat.add_comm 1]
    exact fun hbreak ↦ h.1 hbreak.symm

theorem lengthFrom_blockComment {comment rest : List Char} (h : NeverCloses comment)
    (hrest : rest.head? ≠ some '/') (before passed : Nat) :
    lengthFrom (blockComment before) passed (comment ++ rest) =
      lengthFrom (blockComment before) (passed + comment.length) rest := by
  induction comment generalizing passed with
  | nil => rfl
  | cons character comment ih =>
    obtain ⟨hfront, hinside⟩ := neverCloses_cons.1 h
    rw [List.cons_append, lengthFrom, ih hinside, List.length_cons, Nat.add_assoc, Nat.add_comm 1]
    -- The slash of a closing pair is in the comment, or the first character behind it.
    intro more hstar hslash
    cases comment with
    | nil => exact hrest (congrArg List.head? hslash)
    | cons next comment => exact hfront ⟨hstar, congrArg some (List.cons.inj hslash).1⟩

/-- The walk passes an item and goes on behind it. -/
theorem Item.length_append {item : List Char} (h : Item item) (rest : List Char) :
    length (item ++ rest) = item.length + length rest := by
  cases h with
  | blank isBlank =>
    rw [List.singleton_append, length, lengthFrom_blank_of_isBlank isBlank, lengthFrom_blank]
    rfl
  | @lineComment comment oneLine =>
    have hbreak : lengthFrom .lineComment (2 + comment.length) ('\n' :: rest) =
        lengthFrom .blank (2 + comment.length + 1) rest := rfl
    simp only [List.cons_append, List.append_assoc, List.nil_append, List.length_cons,
      List.length_append]
    rw [length, lengthFrom, Nat.zero_add, lengthFrom_lineComment oneLine, hbreak, lengthFrom_blank]
    simp only [List.length_nil]
    omega
  | @blockComment comment inside =>
    have hcloses : lengthFrom (.blockComment 0) (2 + comment.length) ('*' :: '/' :: rest) =
        lengthFrom .blank (2 + comment.length + 2) rest := rfl
    have hrest : ('*' :: '/' :: rest).head? ≠ some '/' := by simp
    simp only [List.cons_append, List.append_assoc, List.nil_append, List.length_cons,
      List.length_append]
    rw [length, lengthFrom, Nat.zero_add, lengthFrom_blockComment inside hrest, hcloses,
      lengthFrom_blank]
    simp only [List.length_nil]
    omega

theorem Item.length_pos {item : List Char} (h : Item item) : 0 < item.length := by
  cases h <;> exact Nat.succ_pos _

section Ends

variable {comment : List Char}

theorem length_lastLine (h : '\n' ∉ comment) :
    length ('/' :: '/' :: comment) = comment.length + 2 := by
  have hwalk := lengthFrom_lineComment h 2 []
  rw [List.append_nil] at hwalk
  rw [length, lengthFrom, hwalk]
  exact Nat.add_comm 2 _

theorem length_openComment (h : NeverCloses comment) : length ('/' :: '*' :: comment) = 0 := by
  have hwalk := lengthFrom_blockComment h (by simp : ([] : List Char).head? ≠ some '/') 0 2
  rw [List.append_nil] at hwalk
  rw [length, lengthFrom, hwalk]
  rfl

/-- The walk stops in front of a character that is neither blank nor begins a comment. -/
theorem length_of_not_isBlank {character : Char} {text : List Char}
    (h : Text.isBlank character = false) (hline : ¬ (character = '/' ∧ text.head? = some '/'))
    (hblock : ¬ (character = '/' ∧ text.head? = some '*')) : length (character :: text) = 0 := by
  rw [length, lengthFrom]
  · rw [if_neg (by simp [h])]
  · exact fun more hslash htext ↦ hline ⟨hslash, htext ▸ rfl⟩
  · exact fun more hslash htext ↦ hblock ⟨hslash, htext ▸ rfl⟩

end Ends

/-! ## The walk and gaps -/

/-- How a text begins, as far as trivia are concerned. -/
inductive Front : List Char → Prop
  | nil : Front []
  | item {item : List Char} (first : Item item) (rest : List Char) : Front (item ++ rest)
  | lastLine {comment : List Char} (oneLine : '\n' ∉ comment) : Front ('/' :: '/' :: comment)
  | openComment {comment : List Char} (inside : NeverCloses comment) :
      Front ('/' :: '*' :: comment)
  | token {character : Char} {rest : List Char} (stops : length (character :: rest) = 0)
      (begins : ¬ (character = '/' ∧ rest.head? = some '*')) : Front (character :: rest)

theorem front (text : List Char) : Front text := by
  cases text with
  | nil => exact .nil
  | cons character text =>
    by_cases hblank : Text.isBlank character = true
    · exact .item (.blank hblank) text
    by_cases hline : character = '/' ∧ text.head? = some '/'
    · obtain ⟨rfl, hhead⟩ := hline
      obtain ⟨text, rfl⟩ := List.head?_eq_some_iff.1 hhead
      by_cases hbreak : '\n' ∈ text
      · obtain ⟨comment, rest, rfl, hcomment⟩ := List.eq_append_cons_of_mem hbreak
        have hfront := Front.item (.lineComment hcomment) rest
        simpa using hfront
      · exact .lastLine hbreak
    by_cases hblock : character = '/' ∧ text.head? = some '*'
    · obtain ⟨rfl, hhead⟩ := hblock
      obtain ⟨text, rfl⟩ := List.head?_eq_some_iff.1 hhead
      rcases exists_comment text with ⟨comment, rest, rfl, hcomment⟩ | hnever
      · have hfront := Front.item (.blockComment hcomment) rest
        simpa using hfront
      · exact .openComment hnever
    · exact .token (length_of_not_isBlank (eq_false_of_ne_true hblank) hline hblock) hblock

/-- The walk passes every gap and goes on behind it. -/
theorem length_append {gap rest : List Char} (h : IsGap rest.isEmpty gap) :
    length (gap ++ rest) = gap.length + length rest := by
  induction h with
  | nil => exact (Nat.zero_add _).symm
  | item first _ ih =>
    rw [List.append_assoc, first.length_append, ih, List.length_append, Nat.add_assoc]
  | lastLine oneLine last =>
    rw [List.isEmpty_iff.1 last, List.append_nil, length_lastLine oneLine]
    rfl

/-- What the walk passes is a gap, and a block comment behind it is never closed. -/
theorem exists_gap (text : List Char) :
    ∃ gap rest, text = gap ++ rest ∧ length text = gap.length ∧ IsGap rest.isEmpty gap ∧
      ∀ comment, rest = '/' :: '*' :: comment → NeverCloses comment := by
  generalize hsize : text.length = size
  induction size using Nat.strongRecOn generalizing text with
  | _ size ih =>
    cases front text with
    | nil => exact ⟨[], [], rfl, rfl, .nil, fun _ heq ↦ by cases heq⟩
    | item first others =>
      have hshorter : others.length < size := by
        have hpos := first.length_pos
        rw [List.length_append] at hsize
        omega
      obtain ⟨gap, rest, rfl, hgap, hisGap, hopen⟩ := ih _ hshorter others rfl
      refine ⟨_ ++ gap, rest, (List.append_assoc ..).symm, ?_, .item first hisGap, hopen⟩
      rw [first.length_append, hgap, List.length_append]
    | lastLine oneLine =>
      exact ⟨_, [], (List.append_nil _).symm, length_lastLine oneLine, .lastLine oneLine rfl,
        fun _ heq ↦ by cases heq⟩
    | openComment inside =>
      refine ⟨[], _, rfl, length_openComment inside, .nil, fun comment heq ↦ ?_⟩
      cases heq
      exact inside
    | token stops begins =>
      refine ⟨[], _, rfl, stops, .nil, fun comment heq ↦ ?_⟩
      cases heq
      exact absurd ⟨rfl, rfl⟩ begins

/-- If the walk reaches the end of a text, no comment is left open there. -/
theorem not_leavesOpen_of_length {text : List Char} (h : length text = text.length) :
    ¬ LeavesOpen text := by
  rintro ⟨gap, comment, rfl, hgap, hcomment⟩
  have hlength : length (gap ++ '/' :: '*' :: comment) = _ := length_append hgap
  rw [hlength, length_openComment hcomment, List.length_append] at h
  simp at h

end Trivia

end Slang
