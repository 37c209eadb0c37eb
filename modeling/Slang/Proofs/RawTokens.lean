import Slang.Proofs.Lexemes

/-!
# Tokens with the bad characters kept

The tokens of a text when every bad character is a token of its own, with what is reported on the
way to each of them. Parsers see these tokens without the bad characters; what is reported is the
same either way, each report once and in the same order. While they are read, the cursor stands
behind a first part of the text, and counts its lines, columns and bytes from the start of it.
-/

namespace Slang

@[simp] theorem Reading.token_lexeme (reading : Reading) :
    reading.lexeme.token = reading.token := rfl

@[simp] theorem Reading.reports_lexeme (reading : Reading) :
    reading.lexeme.reports = reading.reports := rfl

namespace Cursor

/-- A comment that is left open is reported where it begins, a missing quote behind the string, and
a bad character where it stands. -/
theorem mem_reports_readRaw {cursor : Cursor} {report : Diagnostic}
    (h : report ∈ cursor.readRaw.reports) :
    (cursor.readRaw.token.kind = .eof ∧
      report = ⟨.unclosedComment, cursor.start.span 2, .error⟩) ∨
    (∃ quote, report = ⟨.unclosedString quote, cursor.readRaw.next.span 1, .error⟩) ∨
    ∃ character, report = ⟨.unexpectedCharacter character, cursor.start.span 1, .error⟩ := by
  rcases cursor.start_cases with hend | hcomment | ⟨first, rest, hfirst, hcomment⟩
  · rw [readRaw_of_end hend] at h
    cases h
  · rw [readRaw_of_comment hcomment] at h ⊢
    exact .inl ⟨rfl, List.mem_singleton.1 h⟩
  · rw [readRaw_of_token hfirst hcomment] at h ⊢
    dsimp only [problems] at h
    split at h
    · rename_i quote _
      exact .inr (.inl ⟨quote, List.mem_singleton.1 h⟩)
    split at h
    · exact .inr (.inr ⟨first, List.mem_singleton.1 h⟩)
    · cases h

theorem isLexical_of_mem_readRaw {cursor : Cursor} {report : Diagnostic}
    (h : report ∈ cursor.readRaw.reports) : report.problem.isLexical = true := by
  rcases mem_reports_readRaw h with ⟨-, rfl⟩ | ⟨quote, rfl⟩ | ⟨character, rfl⟩ <;> rfl

theorem readRaw_of_text_nil {cursor : Cursor} (h : cursor.text = []) :
    cursor.readRaw = cursor.readEnd [] := by
  obtain ⟨location, text⟩ := cursor
  cases h
  rfl

/-- Once the end of the text is read, it is read again in the same place, and nothing more is
reported. -/
theorem readRaw_again_of_eof {cursor : Cursor} (h : cursor.readRaw.token.kind = .eof) :
    cursor.readRaw.next.readRaw = ⟨cursor.readRaw.token, [], cursor.readRaw.next⟩ := by
  rcases cursor.start_cases with hend | hcomment | ⟨first, rest, hfirst, hcomment⟩
  · rw [readRaw_of_end hend]
    exact readRaw_of_text_nil hend
  · rw [readRaw_of_comment hcomment]
    exact readRaw_of_text_nil rfl
  · rw [readRaw_of_token hfirst hcomment] at h
    exact absurd h (Shape.kind_ofText_ne_eof first rest)

/-- The lexemes from a cursor up to and including the end of the text, bad characters included.
Every one but the last takes up a character. -/
def rawLexemes (cursor : Cursor) : List Lexeme :=
  if _ : cursor.readRaw.token.kind = .eof then [cursor.readRaw.lexeme]
  else cursor.readRaw.lexeme :: cursor.readRaw.next.rawLexemes
termination_by cursor.text.length
decreasing_by
  rename_i hmore
  exact (cursor.readRaw_progress.resolve_left hmore).2

/-- All tokens of a source text, bad characters and the end included. -/
def rawTokensOf (source : String) : List Token :=
  (ofSource source).rawLexemes.map Lexeme.token

/-- What is reported when a source text is read token by token up to its end. -/
def rawReportsOf (source : String) : List Diagnostic :=
  (ofSource source).rawLexemes.flatMap Lexeme.reports

section RawLexemes

variable {cursor : Cursor}

theorem rawLexemes_of_eof (h : cursor.readRaw.token.kind = .eof) :
    cursor.rawLexemes = [cursor.readRaw.lexeme] := by
  rw [rawLexemes, dif_pos h]

theorem rawLexemes_of_more (h : cursor.readRaw.token.kind ≠ .eof) :
    cursor.rawLexemes = cursor.readRaw.lexeme :: cursor.readRaw.next.rawLexemes := by
  rw [rawLexemes, dif_neg h]

/-- A bad character leaves its report to the token behind it. -/
theorem lexemeList_of_bad (h : cursor.readRaw.token.kind = .bad) :
    cursor.lexemeList =
      ⟨cursor.readRaw.next.lexemes.1.token,
        cursor.readRaw.reports ++ cursor.readRaw.next.lexemes.1.reports⟩ ::
      cursor.readRaw.next.lexemes.2 := by
  have hread := read_of_bad h
  by_cases heof : cursor.readRaw.next.read.token.kind = .eof
  · have hlast : cursor.read.token.kind = .eof := by rwa [hread]
    obtain ⟨hfirst, hrest⟩ := List.cons.inj (lexemeList_of_eof heof)
    rw [lexemeList_of_eof hlast, hfirst, hrest, hread]
    rfl
  · have hmore : cursor.read.token.kind ≠ .eof := by rwa [hread]
    obtain ⟨hfirst, hrest⟩ := List.cons.inj (lexemeList_of_more heof)
    rw [lexemeList_of_more hmore, hfirst, hrest, hread]
    rfl

end RawLexemes

/-- Without the bad characters, the tokens are those that parsers see. -/
theorem tokens_rawLexemes (cursor : Cursor) :
    (cursor.rawLexemes.map Lexeme.token).filter (·.kind != .bad) =
      cursor.lexemeList.map Lexeme.token := by
  induction cursor using rawLexemes.induct with
  | case1 cursor heof =>
    have hgood : cursor.readRaw.token.kind ≠ .bad := by simp [heof]
    have hlast : cursor.read.token.kind = .eof := by rwa [read_of_ne_bad hgood]
    rw [rawLexemes_of_eof heof, lexemeList_of_eof hlast, read_of_ne_bad hgood]
    exact List.filter_cons_of_pos (by simpa using hgood)
  | case2 cursor hmore ih =>
    rw [rawLexemes_of_more hmore, List.map_cons]
    by_cases hbad : cursor.readRaw.token.kind = .bad
    · rw [List.filter_cons_of_neg (by simpa using hbad), ih, lexemeList_of_bad hbad]
      rfl
    · have hmore' : cursor.read.token.kind ≠ .eof := by rwa [read_of_ne_bad hbad]
      rw [List.filter_cons_of_pos (by simpa using hbad), ih, lexemeList_of_more hmore',
        read_of_ne_bad hbad]
      rfl

/-- Leaving out bad characters loses none of the reports. -/
theorem reports_rawLexemes (cursor : Cursor) :
    cursor.rawLexemes.flatMap Lexeme.reports = cursor.lexemeList.flatMap Lexeme.reports := by
  induction cursor using rawLexemes.induct with
  | case1 cursor heof =>
    have hgood : cursor.readRaw.token.kind ≠ .bad := by simp [heof]
    have hlast : cursor.read.token.kind = .eof := by rwa [read_of_ne_bad hgood]
    rw [rawLexemes_of_eof heof, lexemeList_of_eof hlast, read_of_ne_bad hgood]
  | case2 cursor hmore ih =>
    rw [rawLexemes_of_more hmore, List.flatMap_cons, ih]
    by_cases hbad : cursor.readRaw.token.kind = .bad
    · rw [lexemeList_of_bad hbad, List.flatMap_cons, List.append_assoc]
      rfl
    · have hmore' : cursor.read.token.kind ≠ .eof := by rwa [read_of_ne_bad hbad]
      rw [lexemeList_of_more hmore', List.flatMap_cons, read_of_ne_bad hbad]

theorem tokensOf_eq_filter (source : String) :
    tokensOf source = (rawTokensOf source).filter (·.kind != .bad) :=
  (tokens_rawLexemes (ofSource source)).symm

theorem rawReportsOf_eq_reportsOf (source : String) : rawReportsOf source = reportsOf source :=
  reports_rawLexemes (ofSource source)

theorem isLexical_of_mem_rawReportsOf {source : String} {report : Diagnostic}
    (h : report ∈ rawReportsOf source) : report.problem.isLexical = true := by
  unfold rawReportsOf at h
  generalize ofSource source = cursor at h
  induction cursor using rawLexemes.induct with
  | case1 cursor heof =>
    rw [rawLexemes_of_eof heof, List.flatMap_singleton] at h
    exact isLexical_of_mem_readRaw h
  | case2 cursor hmore ih =>
    rw [rawLexemes_of_more hmore, List.flatMap_cons] at h
    exact (List.mem_append.1 h).elim isLexical_of_mem_readRaw ih

/-! ## Where the cursor stands -/

/-- The cursor stands in a source text behind the given part of it. -/
structure Behind (source : String) (before : List Char) (cursor : Cursor) : Prop where
  text_eq : source.toList = before ++ cursor.text
  location_eq : cursor.location = Location.start.after before

theorem behind_ofSource (source : String) : (ofSource source).Behind source [] :=
  ⟨rfl, rfl⟩

namespace Behind

variable {source : String} {before : List Char} {cursor : Cursor}

theorem advance (h : cursor.Behind source before) (count : Nat) :
    (cursor.advance count).Behind source (before ++ cursor.text.take count) where
  text_eq := by
    rw [h.text_eq, Cursor.advance, List.append_assoc, List.take_append_drop]
  location_eq := by
    rw [Cursor.advance, h.location_eq, Location.after_append]

theorem toEnd (h : cursor.Behind source before) :
    cursor.toEnd.Behind source (before ++ cursor.text) where
  text_eq := by
    rw [h.text_eq, Cursor.toEnd, List.append_nil]
  location_eq := by
    rw [Cursor.toEnd, h.location_eq, Location.after_append]

theorem offset_eq (h : cursor.Behind source before) :
    cursor.location.offset = byteLength before := by
  rw [h.location_eq, Location.offset_after]
  exact Nat.zero_add _

/-- A span at the cursor covers the characters that come next. -/
theorem slice_span (h : cursor.Behind source before) (length : Nat) :
    (cursor.span length).slice source = String.ofList (cursor.text.take length) := by
  unfold Span.slice
  rw [show (cursor.span length).start.offset = byteLength before from h.offset_eq, h.text_eq,
    Span.dropBytes_append]
  rfl

end Behind

end Cursor

end Slang
