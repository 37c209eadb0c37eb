import Mathlib.Data.List.DropRight
import Slang.Proofs.ParserReports
import Slang.Proofs.Renderings

/-!
# Where tokens and reports stand

Lines, columns and bytes are counted while a text is read, and the line that a report shows is taken
from the text cut at its line breaks, without any of these counts. They agree: every token and every
report has a place between two characters of the text, a report shows the line of that place, and
its first caret stands below the character that follows, or behind the line if none does.
-/

namespace Slang

/-! ## Lines -/

/-- What stands behind the last line break of a text. -/
def lastLine (text : List Char) : List Char :=
  text.rtakeWhile (· != '\n')

/-- What stands in front of the first line break of a text. -/
def firstLine (text : List Char) : List Char :=
  text.takeWhile (· != '\n')

theorem lastLine_break (text : List Char) : lastLine (text ++ ['\n']) = [] :=
  List.rtakeWhile_concat_neg _ _ _ (by decide)

theorem firstLine_break (text : List Char) : firstLine ('\n' :: text) = [] :=
  List.takeWhile_cons_of_neg (by decide)

section InLine

variable {character : Char} (h : character ≠ '\n')
include h

theorem lastLine_concat (text : List Char) :
    lastLine (text ++ [character]) = lastLine text ++ [character] :=
  List.rtakeWhile_concat_pos _ _ _ (by simpa using h)

theorem firstLine_cons (text : List Char) :
    firstLine (character :: text) = character :: firstLine text :=
  List.takeWhile_cons_of_pos (by simpa using h)

end InLine

theorem column_start_after (text : List Char) :
    (Location.start.after text).column = (lastLine text).length + 1 := by
  induction text using List.reverseRecOn with
  | nil => rfl
  | append_singleton text character ih =>
    rw [Location.after_append, Location.after_cons, Location.after_nil, Location.step]
    by_cases hbreak : character = '\n'
    · rw [if_pos hbreak, hbreak, lastLine_break]
      rfl
    · rw [if_neg hbreak, lastLine_concat hbreak, List.length_append, ih]
      rfl

theorem length_splitOn_break (text : List Char) :
    (text.splitOn '\n').length = text.count '\n' + 1 := by
  induction text with
  | nil => rfl
  | cons character text ih =>
    rw [List.splitOn_cons_eq_if_modifyHead]
    by_cases hbreak : character = '\n'
    · rw [if_pos (beq_iff_eq.2 hbreak), hbreak, List.count_cons_self, List.length_cons, ih]
    · rw [if_neg (mt beq_iff_eq.1 hbreak), List.count_cons_of_ne hbreak, List.length_modifyHead, ih]

theorem exists_splitOn_break (text : List Char) :
    ∃ others, text.splitOn '\n' = firstLine text :: others := by
  induction text with
  | nil => exact ⟨[], rfl⟩
  | cons character text ih =>
    obtain ⟨others, hothers⟩ := ih
    rw [List.splitOn_cons_eq_if_modifyHead]
    by_cases hbreak : character = '\n'
    · rw [if_pos (beq_iff_eq.2 hbreak), hbreak, firstLine_break]
      exact ⟨_, rfl⟩
    · rw [if_neg (mt beq_iff_eq.1 hbreak), firstLine_cons hbreak, hothers]
      exact ⟨others, rfl⟩

/-- A text is cut anywhere. The line of the cut is the one whose number is that of the breaks in
front of it. -/
theorem getElem?_splitOn_append (before after : List Char) :
    ((before ++ after).splitOn '\n')[before.count '\n']? =
      some (lastLine before ++ firstLine after) := by
  -- The character in front of the cut goes to the text behind it, until that character is a break.
  induction before using List.reverseRecOn generalizing after with
  | nil =>
    obtain ⟨others, hothers⟩ := exists_splitOn_break after
    rw [List.nil_append, hothers]
    rfl
  | append_singleton before character ih =>
    rw [List.append_assoc, List.singleton_append, List.count_append]
    by_cases hbreak : character = '\n'
    · obtain ⟨others, hothers⟩ := exists_splitOn_break after
      have hlength := length_splitOn_break before
      rw [hbreak, List.splitOn_append_cons_self, lastLine_break, hothers, List.count_singleton_self,
        ← hlength, List.getElem?_append_right (Nat.le_refl _), Nat.sub_self]
      rfl
    · rw [List.count_singleton, if_neg (mt beq_iff_eq.1 hbreak), Nat.add_zero, ih,
        firstLine_cons hbreak, lastLine_concat hbreak, List.append_assoc]
      rfl

theorem lineText_linesOf {source : String} {before after : List Char}
    (h : source.toList = before ++ after) :
    Diagnostic.lineText (linesOf source) (before.count '\n' + 1) =
      String.ofList (lastLine before ++ firstLine after) := by
  rw [Diagnostic.lineText, linesOf, h, List.getD_eq_getElem?_getD, List.getElem?_map,
    getElem?_splitOn_append]
  rfl

/-! ## Places -/

namespace Location

/-- The location stands between two parts of a source text. It counts the bytes, the line breaks and
the characters behind the last of these in the first part. -/
structure Splits (source : String) (before after : List Char) (location : Location) : Prop where
  text_eq : source.toList = before ++ after
  offset_eq : location.offset = byteLength before
  line_eq : location.line = before.count '\n' + 1
  column_eq : location.column = (lastLine before).length + 1
  /-- The offset is that of a character, or of the end. -/
  isValid : (String.Pos.Raw.mk location.offset).IsValid source
  offset_le : location.offset ≤ source.utf8ByteSize
  line_le : location.line ≤ (linesOf source).length

theorem splits_start_after {source : String} {before after : List Char}
    (h : source.toList = before ++ after) : (start.after before).Splits source before after := by
  have hsource : source = String.ofList before ++ String.ofList after := by
    rw [← String.ofList_append, ← h, String.ofList_toList]
  have hoffset : (start.after before).offset = byteLength before :=
    (offset_after start before).trans (Nat.zero_add _)
  have hline : (start.after before).line = before.count '\n' + 1 :=
    (line_after start before).trans (Nat.add_comm _ _)
  refine ⟨h, hoffset, hline, column_start_after before, ?_, ?_, ?_⟩
  · rw [hoffset, byteLength_eq, String.Pos.Raw.isValid_iff_exists_append]
    exact ⟨_, _, hsource, rfl⟩
  · rw [hoffset, byteLength_eq, hsource, String.utf8ByteSize_append]
    exact Nat.le_add_right _ _
  · rw [hline, linesOf, List.length_map, length_splitOn_break, h, List.count_append]
    exact Nat.succ_le_succ (Nat.le_add_right _ _)

/-- The location is one of a source text. -/
def IsPlace (source : String) (location : Location) : Prop :=
  ∃ before after, location.Splits source before after

end Location

namespace Cursor

variable {source : String} {before : List Char} {cursor : Cursor}

namespace Behind

theorem isPlace (h : cursor.Behind source before) : cursor.location.IsPlace source := by
  refine ⟨before, cursor.text, ?_⟩
  rw [h.location_eq]
  exact Location.splits_start_after h.text_eq

theorem behind_start (h : cursor.Behind source before) :
    cursor.start.Behind source (before ++ cursor.text.take (Trivia.length cursor.text)) :=
  h.advance _

/-- Reading goes on further behind in the same text. -/
theorem exists_behind_next (h : cursor.Behind source before) :
    ∃ passed, cursor.readRaw.next.Behind source passed := by
  have hstart := h.behind_start
  rcases cursor.start_cases with hend | hcomment | ⟨first, rest, hfirst, hcomment⟩
  · rw [readRaw_of_end hend]
    exact ⟨_, hstart⟩
  · rw [readRaw_of_comment hcomment]
    exact ⟨_, hstart.toEnd⟩
  · rw [readRaw_of_token hfirst hcomment]
    exact ⟨_, hstart.advance _⟩

theorem token_isPlace (h : cursor.Behind source before) :
    cursor.readRaw.token.span.start.IsPlace source := by
  have hstart := h.behind_start
  rcases cursor.start_cases with hend | hcomment | ⟨first, rest, hfirst, hcomment⟩
  · rw [readRaw_of_end hend]
    exact hstart.isPlace
  · rw [readRaw_of_comment hcomment]
    exact hstart.toEnd.isPlace
  · rw [readRaw_of_token hfirst hcomment]
    exact hstart.isPlace

theorem report_isPlace (h : cursor.Behind source before) {report : Diagnostic}
    (hreport : report ∈ cursor.readRaw.reports) : report.span.start.IsPlace source := by
  rcases mem_reports_readRaw hreport with ⟨-, rfl⟩ | ⟨quote, rfl⟩ | ⟨character, rfl⟩
  · exact h.behind_start.isPlace
  · obtain ⟨passed, hnext⟩ := h.exists_behind_next
    exact hnext.isPlace
  · exact h.behind_start.isPlace

/-- All tokens from a cursor on, and all reports that come with them, have places in the text. -/
theorem lexeme_isPlace (h : cursor.Behind source before) :
    ∀ lexeme ∈ cursor.rawLexemes, lexeme.token.span.start.IsPlace source ∧
      ∀ report ∈ lexeme.reports, report.span.start.IsPlace source := by
  induction cursor using rawLexemes.induct generalizing before with
  | case1 cursor heof =>
    rw [rawLexemes_of_eof heof, List.forall_mem_singleton]
    exact ⟨h.token_isPlace, fun _ ↦ h.report_isPlace⟩
  | case2 cursor hmore ih =>
    obtain ⟨passed, hnext⟩ := h.exists_behind_next
    rw [rawLexemes_of_more hmore, List.forall_mem_cons]
    exact ⟨⟨h.token_isPlace, fun _ ↦ h.report_isPlace⟩, ih hnext⟩

end Behind

theorem isPlace_of_mem_rawTokensOf {token : Token} (h : token ∈ rawTokensOf source) :
    token.span.start.IsPlace source := by
  obtain ⟨lexeme, hmem, rfl⟩ := List.mem_map.1 h
  exact ((behind_ofSource source).lexeme_isPlace lexeme hmem).1

theorem isPlace_of_mem_tokensOf {token : Token} (h : token ∈ tokensOf source) :
    token.span.start.IsPlace source := by
  rw [tokensOf_eq_filter] at h
  exact isPlace_of_mem_rawTokensOf (List.mem_filter.1 h).1

theorem isPlace_of_mem_rawReportsOf {report : Diagnostic} (h : report ∈ rawReportsOf source) :
    report.span.start.IsPlace source := by
  obtain ⟨lexeme, hmem, hreport⟩ := List.mem_flatMap.1 h
  exact ((behind_ofSource source).lexeme_isPlace lexeme hmem).2 report hreport

end Cursor

/-! ## Diagnostics of a parse -/

section Parse

variable {colors : Option Painter} {source : String} {diagnostic : Diagnostic}
  (h : diagnostic ∈ (parse colors source).diagnostics)
include h

/-- What the parser reports itself is reported at one of the tokens. -/
theorem exists_token_of_mem_diagnostics (hsyntactic : diagnostic.problem.isLexical = false) :
    ∃ token ∈ Cursor.tokensOf source, diagnostic.span = token.span := by
  obtain ⟨logged, after, hlogged, -, hfilter⟩ := syntactic_diagnostics_parse colors source
  have hmem : diagnostic ∈ logged := by
    rw [← hfilter, List.mem_filter]
    exact ⟨h, by simp [hsyntactic]⟩
  exact (hlogged.syntactic diagnostic hmem).2

theorem isPlace_of_mem_diagnostics : diagnostic.span.start.IsPlace source := by
  cases hlexical : diagnostic.problem.isLexical with
  | true =>
    apply Cursor.isPlace_of_mem_rawReportsOf
    rw [← lexical_diagnostics_parse colors, List.mem_filter]
    exact ⟨h, hlexical⟩
  | false =>
    obtain ⟨token, hmem, hspan⟩ := exists_token_of_mem_diagnostics h hlexical
    rw [hspan]
    exact Cursor.isPlace_of_mem_tokensOf hmem

end Parse

namespace Diagnostic

theorem head?_carets (span : Span) : (carets span).toList.head? = some '^' := by
  have hpos : max span.length 1 ≠ 0 := Nat.ne_of_gt (Nat.le_max_right _ _)
  rw [carets, String.toList_ofList, List.head?_replicate, if_neg hpos]

/-- The line of a place is shown, and the carets stand behind as many blanks as the gutter has
characters and the line has in front of that place. -/
theorem render_of_splits {source : String} {diagnostic : Diagnostic} {before after : List Char}
    (h : diagnostic.span.start.Splits source before after) (colors : Option Painter) :
    diagnostic.render colors (linesOf source) =
      String.join ((diagnostic.picture (colors.getD .plain) (gutter diagnostic.span)
        (String.ofList (lastLine before ++ firstLine after)) (lastLine before).length).map
          (· ++ "\n")) := by
  have hline : lineText (linesOf source) diagnostic.span.start.line =
      String.ofList (lastLine before ++ firstLine after) := by
    rw [h.line_eq]
    exact lineText_linesOf h.text_eq
  have hwidth : diagnostic.span.start.column - 1 = (lastLine before).length := by
    rw [h.column_eq, Nat.add_sub_cancel]
  rw [render_eq_picture, hline, hwidth]

end Diagnostic

/-- Tokens and reports stand where their lines, columns and offsets say, and what the parser reports
itself stands at a token. A report shows the line of its place behind that line's number and its
column, and its first caret comes below the character that follows there, or behind the line. -/
theorem diagnostics_point (colors : Option Painter) (source : String) :
    (∀ token ∈ Cursor.rawTokensOf source,
      ∃ before after, token.span.start.Splits source before after) ∧
    ∀ diagnostic ∈ (parse colors source).diagnostics,
      (diagnostic.problem.isLexical = false →
        ∃ token ∈ Cursor.tokensOf source, diagnostic.span = token.span) ∧
      ∃ before after, diagnostic.span.start.Splits source before after ∧
        let start := diagnostic.span.start
        let gutter := toString start.line ++ ":" ++ toString start.column ++ " | "
        let line := String.ofList (lastLine before ++ firstLine after)
        (Diagnostic.carets diagnostic.span).toList.head? = some '^' ∧
        ∀ colors : Option Painter, diagnostic.render colors (linesOf source) =
          String.join ((diagnostic.picture (colors.getD .plain) gutter line
            (lastLine before).length).map (· ++ "\n")) := by
  constructor
  · exact fun token ↦ Cursor.isPlace_of_mem_rawTokensOf
  · intro diagnostic hmem
    obtain ⟨before, after, hsplits⟩ := isPlace_of_mem_diagnostics hmem
    exact ⟨exists_token_of_mem_diagnostics hmem, before, after, hsplits,
      Diagnostic.head?_carets diagnostic.span, Diagnostic.render_of_splits hsplits⟩

/-- The string begins in the first line, and its end is missed in the second one, behind characters
of two bytes each. -/
theorem unclosedString_points :
    let diagnostic : Diagnostic := ⟨.unclosedString '\'', ⟨⟨2, 2, 6⟩, 1⟩, .error⟩
    diagnostic ∈ (parse none "'é\nß").diagnostics ∧
      diagnostic.render none (linesOf "'é\nß") =
        "error: Expected closing quote ' to string\n2:2 | ß\n       ^\n" ∧
      ∃ before after, Location.Splits "'é\nß" before after ⟨2, 2, 6⟩ ∧
        diagnostic.render none (linesOf "'é\nß") =
          String.join ((diagnostic.picture .plain "2:2 | "
            (String.ofList (lastLine before ++ firstLine after)) (lastLine before).length).map
              (· ++ "\n")) := by
  intro diagnostic
  have hmem : diagnostic ∈ (parse none "'é\nß").diagnostics := by decide +kernel
  obtain ⟨-, before, after, hsplits, -, hrender⟩ := (diagnostics_point none "'é\nß").2 _ hmem
  have hgutter : toString diagnostic.span.start.line ++ ":" ++
      toString diagnostic.span.start.column ++ " | " = "2:2 | " := by decide +kernel
  rw [hgutter] at hrender
  exact ⟨hmem, by decide +kernel, before, after, hsplits, hrender none⟩

end Slang
