import Slang.Proofs.Gaps
import Slang.Proofs.RawTokens

/-!
# A text is its tokens and the gaps between them

Reading a text token by token, bad characters included, passes every character once: the text is the
gap in front of each token and the characters that its span covers, in turn, and a last gap. Only at
the end may a block comment be left open, and exactly then that is reported.
-/

namespace Slang

open Trivia

/-- A token and the gap in front of it. -/
structure Piece where
  gap : List Char
  token : Token

namespace Piece

/-- The characters of a source text that the token covers. -/
def text (source : String) (piece : Piece) : List Char :=
  (piece.token.span.slice source).toList

/-- The gaps and the tokens' characters in turn. -/
def joined (source : String) (pieces : List Piece) : List Char :=
  pieces.flatMap fun piece ↦ piece.gap ++ piece.text source

theorem joined_cons (source : String) (piece : Piece) (pieces : List Piece) :
    joined source (piece :: pieces) = piece.gap ++ piece.text source ++ joined source pieces :=
  List.flatMap_cons

/-- Behind the given part of a source text the pieces follow one another. Each is a gap and some
characters, and begins its token where the token says. -/
inductive LaidOut (source : String) : List Char → List Piece → Prop
  | nil (before : List Char) : LaidOut source before []
  | cons {before : List Char} {piece : Piece} {pieces : List Piece}
      (isGap : IsGap false piece.gap) (nonempty : piece.text source ≠ [])
      (offset_eq : piece.token.span.start.offset = byteLength (before ++ piece.gap))
      (others : LaidOut source (before ++ piece.gap ++ piece.text source) pieces) :
      LaidOut source before (piece :: pieces)

end Piece

namespace Cursor

open Piece

variable {source : String} {before : List Char} {cursor : Cursor}

/-- In front of the next token there is a gap. If a block comment follows it, it is never closed. -/
theorem Behind.start (h : cursor.Behind source before) :
    ∃ gap, cursor.text = gap ++ cursor.start.text ∧ cursor.start.Behind source (before ++ gap) ∧
      IsGap cursor.start.text.isEmpty gap ∧
      ∀ comment, cursor.start.text = '/' :: '*' :: comment → NeverCloses comment := by
  obtain ⟨gap, rest, htext, hlength, hgap, hopen⟩ := exists_gap cursor.text
  have hstart : cursor.start = cursor.advance gap.length := by rw [Cursor.start, hlength]
  have hrest : cursor.start.text = rest := by
    rw [hstart, Cursor.advance, htext]
    exact List.drop_left
  have hbehind := h.advance gap.length
  rw [← hstart, htext, List.take_left] at hbehind
  rw [hrest]
  exact ⟨gap, htext, hbehind, hgap, hopen⟩

theorem exists_of_opensComment {text : List Char} (h : opensComment text = true) :
    ∃ comment, text = '/' :: '*' :: comment := by
  unfold opensComment at h
  split at h
  · exact ⟨_, rfl⟩
  · cases h

/-- A token is never reported as a comment that is left open. -/
theorem problem_ne_of_more (h : cursor.readRaw.token.kind ≠ .eof) :
    ∀ report ∈ cursor.readRaw.reports, report.problem ≠ .unclosedComment := by
  intro report hreport
  rcases mem_reports_readRaw hreport with ⟨heof, -⟩ | ⟨quote, rfl⟩ | ⟨character, rfl⟩
  · exact absurd heof h
  · exact Problem.noConfusion
  · exact Problem.noConfusion

/-- What is left when the end of the text is read is a gap, or has a comment that is left open and
reported. -/
theorem ending_of_eof (h : cursor.Behind source before) (heof : cursor.readRaw.token.kind = .eof) :
    (IsGap true cursor.text ∨ LeavesOpen cursor.text) ∧
      (LeavesOpen cursor.text ↔
        ∃ report ∈ cursor.readRaw.reports, report.problem = .unclosedComment) := by
  obtain ⟨gap, htext, hbehind, hgap, hopen⟩ := h.start
  rcases cursor.start_cases with hend | hcomment | ⟨first, rest, hfirst, hcomment⟩
  · rw [hend, List.append_nil] at htext
    rw [hend] at hgap
    rw [readRaw_of_end hend, htext]
    refine ⟨.inl hgap, iff_of_false (not_leavesOpen_of_length ?_) ?_⟩
    · have hlength : Trivia.length (gap ++ []) = _ := length_append hgap
      rwa [List.append_nil] at hlength
    · rintro ⟨report, hreport, -⟩
      cases hreport
  · obtain ⟨comment, hrest⟩ := exists_of_opensComment hcomment
    rw [hrest] at htext hgap
    have hleaves : LeavesOpen cursor.text := ⟨gap, comment, htext, hgap, hopen comment hrest⟩
    rw [readRaw_of_comment hcomment]
    exact ⟨.inr hleaves, iff_of_true hleaves ⟨_, List.mem_singleton_self _, rfl⟩⟩
  · rw [readRaw_of_token hfirst hcomment] at heof
    exact absurd heof (Shape.kind_ofText_ne_eof first rest)

/-- The characters that a token covers follow the trivia. -/
theorem Behind.slice_readRaw (h : cursor.Behind source before) {first : Char} {rest : List Char}
    (hfirst : cursor.start.text = first :: rest)
    (hcomment : opensComment (first :: rest) = false) :
    (cursor.readRaw.token.span.slice source).toList =
      (first :: rest).take (Shape.ofText first rest).length := by
  rw [readRaw_of_token hfirst hcomment, ← hfirst]
  exact (congrArg String.toList ((h.advance _).slice_span _)).trans String.toList_ofList

/-- A token is read behind a gap, takes up the characters it covers, and reading goes on behind
them. -/
theorem piece_of_more (h : cursor.Behind source before)
    (hmore : cursor.readRaw.token.kind ≠ .eof) :
    ∃ piece : Piece, piece.token = cursor.readRaw.token ∧ IsGap false piece.gap ∧
      piece.text source ≠ [] ∧
      piece.token.span.start.offset = byteLength (before ++ piece.gap) ∧
      cursor.text = piece.gap ++ piece.text source ++ cursor.readRaw.next.text ∧
      cursor.readRaw.next.Behind source (before ++ piece.gap ++ piece.text source) := by
  obtain ⟨gap, htext, hbehind, hgap, -⟩ := h.start
  obtain ⟨first, rest, hfirst, hcomment⟩ := exists_token_of_more hmore
  have hraw := readRaw_of_token hfirst hcomment
  have hlength := Shape.length_ofText_pos first rest
  have hslice : (Piece.mk gap cursor.readRaw.token).text source =
      cursor.start.text.take (Shape.ofText first rest).length := by
    rw [hfirst]
    exact h.slice_readRaw hfirst hcomment
  refine ⟨⟨gap, cursor.readRaw.token⟩, rfl, ?_, ?_, ?_, ?_, ?_⟩
  · rwa [hfirst] at hgap
  · rw [hslice, hfirst, ne_eq, List.take_eq_nil_iff]
    exact not_or.2 ⟨Nat.ne_of_gt hlength, List.cons_ne_nil _ _⟩
  · rw [hraw]
    exact hbehind.offset_eq
  · rw [hslice, hraw, List.append_assoc]
    exact htext.trans (congrArg (gap ++ ·) (List.take_append_drop ..).symm)
  · rw [hslice, hraw]
    exact hbehind.advance _

/-- The text from a cursor on is cut into pieces and a last gap. -/
theorem exists_pieces (h : cursor.Behind source before) :
    ∃ pieces ending last, cursor.rawLexemes.map Lexeme.token = pieces.map Piece.token ++ [ending] ∧
      ending.kind = .eof ∧ (∀ piece ∈ pieces, piece.token.kind ≠ .eof) ∧
      LaidOut source before pieces ∧ cursor.text = joined source pieces ++ last ∧
      (IsGap true last ∨ LeavesOpen last) ∧
      (LeavesOpen last ↔ ∃ report ∈ cursor.rawLexemes.flatMap Lexeme.reports,
        report.problem = .unclosedComment) := by
  induction cursor using rawLexemes.induct generalizing before with
  | case1 cursor heof =>
    obtain ⟨hlast, hopen⟩ := ending_of_eof h heof
    rw [rawLexemes_of_eof heof]
    refine ⟨[], cursor.readRaw.token, cursor.text, rfl, heof, ?_, .nil before, rfl, hlast, ?_⟩
    · exact fun piece hpiece ↦ absurd hpiece List.not_mem_nil
    · simpa using hopen
  | case2 cursor hmore ih =>
    obtain ⟨piece, htoken, hgap, hnonempty, hoffset, htext, hnext⟩ := piece_of_more h hmore
    obtain ⟨pieces, ending, last, htokens, hending, hkinds, hlaid, hrest, hlast, hopen⟩ := ih hnext
    rw [rawLexemes_of_more hmore]
    refine ⟨piece :: pieces, ending, last, ?_, hending, ?_, .cons hgap hnonempty hoffset hlaid, ?_,
      hlast, ?_⟩
    · rw [List.map_cons, htokens, List.map_cons, htoken]
      rfl
    · rw [← htoken] at hmore
      exact List.forall_mem_cons.2 ⟨hmore, hkinds⟩
    · rw [htext, hrest, joined_cons, ← List.append_assoc]
    · have hnone := problem_ne_of_more hmore
      rw [hopen, List.flatMap_cons]
      constructor
      · rintro ⟨report, hreport, hproblem⟩
        exact ⟨report, List.mem_append_right _ hreport, hproblem⟩
      · rintro ⟨report, hreport, hproblem⟩
        rcases List.mem_append.1 hreport with hhere | hlater
        · exact absurd hproblem (hnone report hhere)
        · exact ⟨report, hlater, hproblem⟩

end Cursor

/-- Every text is the gap and the characters of each token in turn, up to a last gap. Each token
begins at its offset. The last gap may leave a block comment open, and does so exactly if that is
reported. -/
theorem source_eq_joined (source : String) :
    ∃ pieces ending last, Cursor.rawTokensOf source = pieces.map Piece.token ++ [ending] ∧
      ending.kind = .eof ∧ (∀ piece ∈ pieces, piece.token.kind ≠ .eof) ∧
      Piece.LaidOut source [] pieces ∧ source.toList = Piece.joined source pieces ++ last ∧
      (IsGap true last ∨ LeavesOpen last) ∧
      (LeavesOpen last ↔ ∃ report ∈ Cursor.rawReportsOf source,
        report.problem = .unclosedComment) :=
  Cursor.exists_pieces (Cursor.behind_ofSource source)

end Slang
