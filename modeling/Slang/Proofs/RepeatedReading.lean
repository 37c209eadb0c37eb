import Mathlib.Data.List.Forall2
import Slang.Proofs.Places
import Slang.Proofs.TokenForms

/-!
# One stream of tokens

A token can be asked for as it stands in the text or with the bad characters in front of it passed
over. Whichever way all tokens are asked for, the good ones are the same, in the same places, and
the same is reported: every bad character once, and behind all of these at most one string or one
comment that is never closed, since that takes up the rest of the text. When the end of the text has
been answered, every further call answers it again and reports nothing.
-/

namespace Slang

/-- The ways to ask for the next token. -/
inductive Reader where
  /-- Every bad character is a token of its own. -/
  | raw
  | filtered
  deriving Repr, DecidableEq

def Reader.read : Reader → Cursor → Reading
  | raw, cursor => cursor.readRaw
  | filtered, cursor => cursor.read

/-- The end of a source text, with nothing reported on the way to it. -/
def Lexeme.ended (source : String) : Lexeme :=
  ⟨⟨.eof, ⟨Location.start.after source.toList, 1⟩⟩, []⟩

/-- A bad character is reported as the character it is, where it stands, and in these words. -/
def Token.ReportedBy (source : String) (token : Token) (report : Diagnostic) : Prop :=
  ∃ character, token.span.slice source = character.toString ∧
    report = ⟨.unexpectedCharacter character, token.span, .error⟩ ∧
    report.problem.message = "Unexpected character " ++ character.toString

theorem Token.problem_of_reportedBy {source : String} {tokens : List Token}
    {reports : List Diagnostic} (h : List.Forall₂ (Token.ReportedBy source) tokens reports)
    {report : Diagnostic} (hmem : report ∈ reports) :
    ∃ character, report.problem = .unexpectedCharacter character := by
  induction h with
  | nil => cases hmem
  | cons first _ ih =>
    rcases List.mem_cons.1 hmem with rfl | hmem
    · obtain ⟨character, -, rfl, -⟩ := first
      exact ⟨character, rfl⟩
    · exact ih hmem

/-- What may be reported behind all bad characters. A missing quote is missed at the end of the
text, a comment that is left open is reported where it begins. -/
inductive LeftOpen (source : String) : List Diagnostic → Prop
  | nothing : LeftOpen source []
  | string (quote : Char) :
      LeftOpen source [⟨.unclosedString quote, ⟨Location.start.after source.toList, 1⟩, .error⟩]
  | comment (start : Location) : LeftOpen source [⟨.unclosedComment, ⟨start, 2⟩, .error⟩]

namespace Cursor

/-- What calls in turn answer, each of them going on behind the token of the one before. -/
def answers : List Reader → Cursor → List Lexeme
  | [], _ => []
  | reader :: readers, cursor =>
    (reader.read cursor).lexeme :: (reader.read cursor).next.answers readers

variable {source : String} {before : List Char} {cursor : Cursor}

/-! ## The end of the text -/

theorem Behind.span_of_nil (h : cursor.Behind source before) (hnil : cursor.text = []) :
    cursor.span 1 = ⟨Location.start.after source.toList, 1⟩ := by
  have hsource : before = source.toList := by rw [h.text_eq, hnil, List.append_nil]
  rw [span, h.location_eq, hsource]

/-- The end is read by a cursor that then stands there. -/
theorem readRaw_of_eof (h : cursor.readRaw.token.kind = .eof) :
    cursor.readRaw = cursor.readRaw.next.readEnd cursor.readRaw.reports ∧
      cursor.readRaw.next.text = [] := by
  rcases cursor.start_cases with hend | hcomment | ⟨first, rest, hfirst, hcomment⟩
  · rw [readRaw_of_end hend]
    exact ⟨rfl, hend⟩
  · rw [readRaw_of_comment hcomment]
    exact ⟨rfl, rfl⟩
  · rw [readRaw_of_token hfirst hcomment] at h
    exact absurd h (Shape.kind_ofText_ne_eof first rest)

theorem Behind.token_of_eof (h : cursor.Behind source before)
    (heof : cursor.readRaw.token.kind = .eof) :
    cursor.readRaw.token = (Lexeme.ended source).token := by
  obtain ⟨hraw, hnil⟩ := readRaw_of_eof heof
  obtain ⟨passed, hnext⟩ := h.exists_behind_next
  rw [hraw, Lexeme.ended, ← hnext.span_of_nil hnil]
  rfl

theorem next_of_read_eof (h : cursor.read.token.kind = .eof) : cursor.read.next.text = [] := by
  induction cursor using read_induction with
  | good cursor hgood =>
    rw [read_of_ne_bad hgood] at h ⊢
    exact (readRaw_of_eof h).2
  | bad cursor hbad ih =>
    rw [read_of_bad hbad] at h ⊢
    exact ih h

theorem Behind.exists_behind_read (h : cursor.Behind source before) :
    ∃ passed, cursor.read.next.Behind source passed := by
  induction cursor using read_induction generalizing before with
  | good cursor hgood =>
    rw [read_of_ne_bad hgood]
    exact h.exists_behind_next
  | bad cursor hbad ih =>
    obtain ⟨passed, hnext⟩ := h.exists_behind_next
    rw [read_of_bad hbad]
    exact ih hnext

/-- At the end of the text both ways to ask find the end, and stay there. -/
theorem Behind.read_of_nil (h : cursor.Behind source before) (hnil : cursor.text = [])
    (reader : Reader) :
    (reader.read cursor).lexeme = Lexeme.ended source ∧ (reader.read cursor).next = cursor := by
  have hraw := readRaw_of_text_nil hnil
  have hgood : cursor.readRaw.token.kind ≠ .bad := by
    rw [hraw]
    exact TokenKind.noConfusion
  have hreader : reader.read cursor = cursor.readEnd [] := by
    cases reader with
    | raw => exact hraw
    | filtered => exact (read_of_ne_bad hgood).trans hraw
  rw [hreader, Lexeme.ended, ← h.span_of_nil hnil]
  exact ⟨rfl, rfl⟩

theorem Behind.answers_of_nil (h : cursor.Behind source before) (hnil : cursor.text = [])
    (readers : List Reader) :
    cursor.answers readers = List.replicate readers.length (Lexeme.ended source) := by
  induction readers with
  | nil => rfl
  | cons reader readers ih =>
    obtain ⟨hlexeme, hnext⟩ := h.read_of_nil hnil reader
    rw [answers, hlexeme, hnext, ih]
    rfl

/-! ## The answers to all calls -/

theorem Behind.answers_raw (h : cursor.Behind source before) (later : List Reader) :
    cursor.answers (List.replicate cursor.rawLexemes.length .raw ++ later) =
      cursor.rawLexemes ++ List.replicate later.length (Lexeme.ended source) := by
  induction cursor using rawLexemes.induct generalizing before with
  | case1 cursor heof =>
    obtain ⟨passed, hnext⟩ := h.exists_behind_next
    have hends := hnext.answers_of_nil (readRaw_of_eof heof).2 later
    rw [rawLexemes_of_eof heof]
    exact congrArg (cursor.readRaw.lexeme :: ·) hends
  | case2 cursor hmore ih =>
    obtain ⟨passed, hnext⟩ := h.exists_behind_next
    rw [rawLexemes_of_more hmore]
    exact congrArg (cursor.readRaw.lexeme :: ·) (ih hnext)

theorem Behind.answers_filtered (h : cursor.Behind source before) (later : List Reader) :
    cursor.answers (List.replicate cursor.lexemeList.length .filtered ++ later) =
      cursor.lexemeList ++ List.replicate later.length (Lexeme.ended source) := by
  induction cursor using lexeme_induction generalizing before with
  | last cursor heof =>
    obtain ⟨passed, hnext⟩ := h.exists_behind_read
    have hends := hnext.answers_of_nil (next_of_read_eof heof) later
    rw [lexemeList_of_eof heof]
    exact congrArg (cursor.read.lexeme :: ·) hends
  | more cursor hmore ih =>
    obtain ⟨passed, hnext⟩ := h.exists_behind_read
    rw [lexemeList_of_more hmore]
    exact congrArg (cursor.read.lexeme :: ·) (ih hnext)

/-- The end of the text is the last token, and no other one. -/
theorem Behind.exists_tokens (h : cursor.Behind source before) :
    ∃ front, cursor.rawLexemes.map Lexeme.token = front ++ [(Lexeme.ended source).token] ∧
      ∀ token ∈ front, token.kind ≠ .eof := by
  induction cursor using rawLexemes.induct generalizing before with
  | case1 cursor heof =>
    rw [rawLexemes_of_eof heof, ← h.token_of_eof heof]
    exact ⟨[], rfl, fun _ hmem ↦ absurd hmem List.not_mem_nil⟩
  | case2 cursor hmore ih =>
    obtain ⟨passed, hnext⟩ := h.exists_behind_next
    obtain ⟨front, hfront, hnone⟩ := ih hnext
    rw [rawLexemes_of_more hmore, List.map_cons, hfront]
    exact ⟨cursor.readRaw.token :: front, rfl, List.forall_mem_cons.2 ⟨hmore, hnone⟩⟩

/-! ## The reports of all calls -/

/-- On the way to a token nothing is reported, the token itself as a bad character, or that it is a
string that takes up the rest of the text. -/
theorem Behind.reports_of_more (h : cursor.Behind source before)
    (hmore : cursor.readRaw.token.kind ≠ .eof) :
    (cursor.readRaw.token.kind = .bad ∧ ∃ report, cursor.readRaw.reports = [report] ∧
        cursor.readRaw.token.ReportedBy source report) ∨
      cursor.readRaw.token.kind ≠ .bad ∧ (cursor.readRaw.reports = [] ∨
        cursor.readRaw.next.text = [] ∧ ∃ quote, cursor.readRaw.reports =
          [⟨.unclosedString quote, cursor.readRaw.next.span 1, .error⟩]) := by
  obtain ⟨first, rest, hfirst, hcomment⟩ := exists_token_of_more hmore
  have hraw := readRaw_of_token hfirst hcomment
  have hslice := h.slice_readRaw hfirst hcomment
  cases hquote : (Shape.ofText first rest).missingQuote with
  | some quote =>
    have hgood : (Shape.ofText first rest).kind ≠ .bad := by
      intro hbad
      rw [Shape.ofText_of_bad hbad] at hquote
      cases hquote
    have hlength : (Shape.ofText first rest).length = (first :: rest).length :=
      Shape.length_of_missingQuote (by simp [hquote])
    rw [hraw]
    refine .inr ⟨hgood, .inr ⟨?_, quote, ?_⟩⟩
    · dsimp only
      rw [Cursor.advance, hlength, hfirst]
      exact List.drop_length
    · dsimp only [problems]
      rw [hquote]
  | none =>
    by_cases hbad : (Shape.ofText first rest).kind = .bad
    · rw [Shape.ofText_of_bad hbad] at hraw hslice
      rw [hraw] at hslice ⊢
      refine .inl ⟨rfl, ⟨.unexpectedCharacter first, cursor.start.span 1, .error⟩, rfl, first, ?_,
        rfl, rfl⟩
      exact String.toList_inj.1 (by simpa using hslice)
    · rw [hraw]
      refine .inr ⟨hbad, .inl ?_⟩
      dsimp only [problems]
      rw [hquote]
      exact if_neg hbad

theorem leftOpen_of_eof (source : String) (heof : cursor.readRaw.token.kind = .eof) :
    LeftOpen source cursor.readRaw.reports := by
  rcases cursor.start_cases with hend | hcomment | ⟨first, rest, hfirst, hcomment⟩
  · rw [readRaw_of_end hend]
    exact .nothing
  · rw [readRaw_of_comment hcomment]
    exact .comment _
  · rw [readRaw_of_token hfirst hcomment] at heof
    exact absurd heof (Shape.kind_ofText_ne_eof first rest)

theorem Behind.exists_reports (h : cursor.Behind source before) :
    ∃ found last, cursor.rawLexemes.flatMap Lexeme.reports = found ++ last ∧
      List.Forall₂ (Token.ReportedBy source)
        ((cursor.rawLexemes.map Lexeme.token).filter (·.kind == .bad)) found ∧
      LeftOpen source last := by
  induction cursor using rawLexemes.induct generalizing before with
  | case1 cursor heof =>
    rw [rawLexemes_of_eof heof]
    refine ⟨[], cursor.readRaw.reports, List.flatMap_singleton .., ?_, leftOpen_of_eof source heof⟩
    rw [List.map_singleton, List.filter_cons_of_neg (by simp [heof])]
    exact .nil
  | case2 cursor hmore ih =>
    obtain ⟨passed, hnext⟩ := h.exists_behind_next
    obtain ⟨found, last, hreports, hfound, hlast⟩ := ih hnext
    rw [rawLexemes_of_more hmore, List.flatMap_cons, List.map_cons, hreports]
    rcases h.reports_of_more hmore with ⟨hbad, report, hreport, hreported⟩ | ⟨hgood, hreport⟩
    · rw [List.filter_cons_of_pos (by simp [hbad]), Reading.reports_lexeme, hreport]
      exact ⟨report :: found, last, rfl, .cons hreported hfound, hlast⟩
    rw [List.filter_cons_of_neg (by simp [hgood]), Reading.reports_lexeme]
    rcases hreport with hreport | ⟨hnil, quote, hreport⟩
    · rw [hreport]
      exact ⟨found, last, rfl, hfound, hlast⟩
    · -- Behind the string there is the end of the text alone, and nothing more to report.
      have heof := readRaw_of_nil hnil
      have hnone : found ++ last = [] := by
        rw [← hreports, rawLexemes_of_eof heof, List.flatMap_singleton,
          readRaw_of_text_nil hnil]
        rfl
      obtain ⟨rfl, rfl⟩ := List.append_eq_nil_iff.1 hnone
      rw [hreport, hnext.span_of_nil hnil]
      exact ⟨[], _, rfl, hfound, .string quote⟩

end Cursor

open Cursor

/-- All tokens of a text are the same whether or not bad characters are kept, but for these, and so
are the reports: one for each bad character, and at most one more about what is left open. After the
end of the text, any calls answer it once more and report nothing. -/
theorem answers_agree (source : String) :
    ∃ raw filtered : List Lexeme,
      (∀ later, (ofSource source).answers (List.replicate raw.length .raw ++ later) =
        raw ++ List.replicate later.length (.ended source)) ∧
      (∀ later, (ofSource source).answers (List.replicate filtered.length .filtered ++ later) =
        filtered ++ List.replicate later.length (.ended source)) ∧
      (∃ front, raw.map Lexeme.token = front ++ [(Lexeme.ended source).token] ∧
        ∀ token ∈ front, token.kind ≠ .eof) ∧
      filtered.map Lexeme.token = (raw.map Lexeme.token).filter (·.kind != .bad) ∧
      tokensOf source = filtered.map Lexeme.token ∧
      filtered.flatMap Lexeme.reports = raw.flatMap Lexeme.reports ∧
      ∃ found last, raw.flatMap Lexeme.reports = found ++ last ∧
        List.Forall₂ (Token.ReportedBy source)
          ((raw.map Lexeme.token).filter (·.kind == .bad)) found ∧
        LeftOpen source last := by
  have hbehind := behind_ofSource source
  refine ⟨(ofSource source).rawLexemes, (ofSource source).lexemeList, hbehind.answers_raw,
    hbehind.answers_filtered, hbehind.exists_tokens, (tokens_rawLexemes _).symm, rfl,
    (reports_rawLexemes _).symm, hbehind.exists_reports⟩

end Slang
