import Slang.Proofs.ParseShape
import Slang.Proofs.RepeatedReading

/-!
# String literals

A literal is its contents between two quotes, with a backslash in front of each quote inside. As a
backslash means nothing else and cannot itself be escaped, contents that end in one have no literal,
since it would take the closing quote away. All other contents have one for either quote, and what
is read as a string is such a literal or has no closing quote anywhere in the rest of the text.
-/

namespace Slang

namespace Quoted

/-- Contents with a backslash in front of each quote. -/
def escape (quote : Char) (contents : List Char) : List Char :=
  contents.flatMap fun character ↦ if character = quote then ['\\', character] else [character]

/-- The literal for the given contents. -/
def literal (quote : Char) (contents : List Char) : List Char :=
  quote :: (escape quote contents ++ [quote])

/-- A backslash at the end of contents would escape the closing quote. -/
def EndsInBackslash (contents : List Char) : Prop :=
  contents.getLast? = some '\\'

instance (contents : List Char) : Decidable (EndsInBackslash contents) :=
  inferInstanceAs (Decidable (contents.getLast? = some '\\'))

/-- No literal opens with the quote in front of the text, whatever follows it. -/
def NeverClosed (quote : Char) (text : List Char) : Prop :=
  ∀ contents following, ¬ EndsInBackslash contents →
    quote :: text ≠ literal quote contents ++ following

section Escape

variable {quote character : Char} {contents : List Char}

theorem escape_cons_self (quote : Char) (contents : List Char) :
    escape quote (quote :: contents) = '\\' :: quote :: escape quote contents := by
  simp [escape]

theorem escape_cons_of_ne (h : character ≠ quote) (contents : List Char) :
    escape quote (character :: contents) = character :: escape quote contents := by
  simp [escape, h]

theorem EndsInBackslash.cons (h : EndsInBackslash contents) (character : Char) :
    EndsInBackslash (character :: contents) := by
  rw [EndsInBackslash] at h ⊢
  rw [List.getLast?_cons, h]
  rfl

/-- Only the end of the contents brings a quote without a backslash. -/
theorem head?_escape_append (hquote : quote ≠ '\\') (h : contents ≠ []) (following : List Char) :
    (escape quote contents ++ following).head? ≠ some quote := by
  cases contents with
  | nil => exact absurd rfl h
  | cons character contents =>
    by_cases hsame : character = quote
    · rw [hsame, escape_cons_self]
      simpa using hquote.symm
    · rw [escape_cons_of_ne hsame]
      simpa using hsame

/-- Contents are read back from their literal, whatever follows it. -/
theorem ofText_escape (hquote : quote ≠ '\\') (h : ¬ EndsInBackslash contents)
    (following : List Char) :
    ofText quote (escape quote contents ++ quote :: following) =
      ⟨contents, (escape quote contents).length + 1, true⟩ := by
  induction contents with
  | nil =>
    cases following <;> exact if_pos rfl
  | cons character contents ih =>
    have hrest := ih fun hends ↦ h (hends.cons character)
    by_cases hsame : character = quote
    · subst hsame
      rw [escape_cons_self, List.cons_append, List.cons_append, ofText, if_neg hquote.symm,
        if_pos ⟨rfl, rfl⟩, hrest, push, List.length_cons, List.length_cons]
      exact congrArg (Quoted.mk _ · true) (Nat.add_comm 2 _)
    · rw [escape_cons_of_ne hsame, List.cons_append]
      obtain ⟨next, text, htext⟩ := List.exists_cons_of_ne_nil
        (List.append_ne_nil_of_right_ne_nil (escape quote contents)
          (List.cons_ne_nil quote following))
      have hescape : ¬ (character = '\\' ∧ next = quote) := by
        rintro ⟨rfl, rfl⟩
        have hcontents : contents ≠ [] := by
          rintro rfl
          exact h rfl
        exact head?_escape_append hquote hcontents _ (congrArg List.head? htext)
      rw [htext] at hrest ⊢
      rw [ofText, if_neg hsame, if_neg hescape, hrest, push, List.length_cons]
      exact congrArg (Quoted.mk _ · true) (Nat.add_comm 1 _)

end Escape

/-- A literal that is closed takes up its own contents, escaped, and the quote. -/
theorem take_of_closed {quote : Char} {text : List Char} (h : (ofText quote text).closed = true) :
    text.take (ofText quote text).length =
      escape quote (ofText quote text).contents ++ [quote] := by
  fun_induction ofText quote text with
  | case1 => cases h
  | case2 => rfl
  | case3 => cases h
  | case4 => rfl
  | case5 character next text hquote hescape ih =>
    obtain ⟨rfl, rfl⟩ := hescape
    rw [push, escape_cons_self, List.cons_append, List.cons_append, ← ih h, Nat.add_comm]
    rfl
  | case6 character next text hquote hescape ih =>
    rw [push, escape_cons_of_ne hquote, List.cons_append, ← ih h, Nat.add_comm]
    rfl

/-- A literal is closed, or there is no literal with its quote at the front of the text. -/
theorem closed_or_neverClosed {quote : Char} (hquote : quote ≠ '\\') (text : List Char) :
    (ofText quote text).closed = true ∧ ¬ EndsInBackslash (ofText quote text).contents ∧
        (quote :: text).take ((ofText quote text).length + 1) =
          literal quote (ofText quote text).contents ∨
      (ofText quote text).closed = false ∧ (ofText quote text).length = text.length ∧
        NeverClosed quote text := by
  cases hclosed : (ofText quote text).closed with
  | true =>
    refine .inl ⟨rfl, (ofText_closed hquote hclosed).1, ?_⟩
    rw [List.take_succ_cons, take_of_closed hclosed]
    rfl
  | false =>
    refine .inr ⟨rfl, length_of_not_closed hclosed, fun contents following hends htext ↦ ?_⟩
    obtain rfl : text = escape quote contents ++ quote :: following := by
      simpa [literal] using htext
    rw [ofText_escape hquote hends] at hclosed
    cases hclosed

end Quoted

/-- The two characters that open a string. -/
def IsQuote (character : Char) : Prop :=
  character = '"' ∨ character = '\''

theorem IsQuote.ne_backslash {quote : Char} (h : IsQuote quote) : quote ≠ '\\' := by
  rcases h with rfl | rfl <;> decide

theorem IsQuote.isBlank {quote : Char} (h : IsQuote quote) : Text.isBlank quote = false := by
  rcases h with rfl | rfl <;> decide

theorem IsQuote.ne_slash {quote : Char} (h : IsQuote quote) : quote ≠ '/' := by
  rcases h with rfl | rfl <;> decide

/-- The token begins with a quote, between two parts of the source text. -/
structure Token.OpensString (source : String) (before : List Char) (quote : Char)
    (rest : List Char) (token : Token) : Prop where
  text_eq : source.toList = before ++ quote :: rest
  isQuote : IsQuote quote
  start_eq : token.span.start = Location.start.after before

/-- A closing quote is missed at the end of the text. -/
def Diagnostic.missingQuote (source : String) (quote : Char) : Diagnostic :=
  ⟨.unclosedString quote, ⟨Location.start.after source.toList, 1⟩, .error⟩

open Quoted

theorem Shape.isQuote_of_string {first : Char} {rest : List Char} {contents : String}
    (h : (ofText first rest).kind = .string contents) : IsQuote first := by
  cases form first rest with
  | quoted begins _ => exact begins
  | word _ shape =>
    rw [shape] at h
    unfold TokenKind.ofWord at h
    split at h <;> cases h
  | _ => simp_all

namespace Cursor

variable {source : String} {before : List Char} {cursor : Cursor}

theorem start_of_isQuote {quote : Char} {rest : List Char} (hquote : IsQuote quote)
    (htext : cursor.text = quote :: rest) : cursor.start = cursor := by
  have hlength : Trivia.length cursor.text = 0 := by
    rw [htext]
    exact Trivia.length_of_not_isBlank hquote.isBlank (fun hslash ↦ hquote.ne_slash hslash.1)
      fun hslash ↦ hquote.ne_slash hslash.1
  rw [start, hlength]
  rfl

/-- What opens with a quote is read as a string. -/
theorem readRaw_of_isQuote {quote : Char} {rest : List Char} (hquote : IsQuote quote)
    (htext : cursor.text = quote :: rest) :
    cursor.readRaw =
      let shape := Shape.ofQuoted quote (Quoted.ofText quote rest)
      let next := cursor.advance shape.length
      ⟨⟨shape.kind, cursor.span shape.length⟩, cursor.problems next quote shape, next⟩ := by
  have hstart := start_of_isQuote hquote htext
  have hcomment : opensComment (quote :: rest) = false :=
    Snippet.opensComment_eq_false fun hslash ↦ hquote.ne_slash hslash.1
  rw [readRaw_of_token (by rw [hstart, htext]) hcomment, hstart, Shape.ofText_quoted hquote]

theorem readRaw_literal {quote : Char} {contents following : List Char} (hquote : IsQuote quote)
    (hends : ¬ EndsInBackslash contents)
    (htext : cursor.text = literal quote contents ++ following) :
    cursor.readRaw =
      ⟨⟨.string (String.ofList contents), cursor.span (literal quote contents).length⟩, [],
        cursor.advance (literal quote contents).length⟩ := by
  have hread : Quoted.ofText quote (escape quote contents ++ quote :: following) =
      ⟨contents, (escape quote contents).length + 1, true⟩ :=
    ofText_escape hquote.ne_backslash hends following
  have hcons : cursor.text = quote :: (escape quote contents ++ quote :: following) := by
    rw [htext, literal]
    simp
  have hlength : (literal quote contents).length = (escape quote contents).length + 1 + 1 := by
    simp [literal]
  rw [readRaw_of_isQuote hquote hcons, hread, hlength]
  rfl

/-- A string is the literal of its contents, or it takes up the rest of a text that holds no literal
with its quote from there on. -/
theorem Behind.string_cases (h : cursor.Behind source before) {contents : String}
    (hkind : cursor.readRaw.token.kind = .string contents) :
    ∃ passed quote rest, cursor.readRaw.token.OpensString source passed quote rest ∧
      (cursor.readRaw.reports = [] ∧ ¬ EndsInBackslash contents.toList ∧
          (cursor.readRaw.token.span.slice source).toList = literal quote contents.toList ∨
        cursor.readRaw.reports = [Diagnostic.missingQuote source quote] ∧
          (cursor.readRaw.token.span.slice source).toList = quote :: rest ∧
          NeverClosed quote rest) := by
  have hmore : cursor.readRaw.token.kind ≠ .eof := by simp [hkind]
  obtain ⟨first, rest, hfirst, hcomment⟩ := exists_token_of_more hmore
  obtain ⟨gap, -, hbehind, -⟩ := h.start
  obtain ⟨passed, hnext⟩ := h.exists_behind_next
  have hslice := h.slice_readRaw hfirst hcomment
  have hraw := readRaw_of_token hfirst hcomment
  have hquote : IsQuote first := by
    rw [hraw] at hkind
    exact Shape.isQuote_of_string hkind
  rw [Shape.ofText_quoted hquote] at hraw hslice
  refine ⟨before ++ gap, first, rest, ⟨?_, hquote, ?_⟩, ?_⟩
  · rw [hbehind.text_eq, hfirst]
  · rw [hraw]
    exact hbehind.location_eq
  rcases closed_or_neverClosed hquote.ne_backslash rest with
    ⟨hclosed, hends, htake⟩ | ⟨hopen, hlength, hnever⟩
  · obtain rfl : String.ofList (Quoted.ofText first rest).contents = contents := by
      rw [hraw] at hkind
      exact TokenKind.string.inj hkind
    rw [String.toList_ofList]
    refine .inl ⟨?_, hends, hslice.trans htake⟩
    rw [hraw]
    simp [problems, Shape.ofQuoted, hclosed]
  · have hnil : cursor.readRaw.next.text = [] := by
      rw [hraw]
      dsimp only [Shape.ofQuoted]
      rw [Cursor.advance, hfirst, hlength]
      exact List.drop_length
    refine .inr ⟨?_, ?_, hnever⟩
    · rw [Diagnostic.missingQuote, ← hnext.span_of_nil hnil, hraw]
      simp [problems, Shape.ofQuoted, hopen]
    · rw [hslice, Shape.ofQuoted, hlength]
      exact List.take_length (l := first :: rest)

end Cursor

open Cursor

/-- What is reported about strings whose closing quote is missing. -/
def missingQuotes (source : String) : List Diagnostic :=
  (rawReportsOf source).filter fun report ↦ report.problem matches .unclosedString _

/-- Only one string can take up the rest of a text. -/
theorem missingQuotes_eq {source : String} {quote : Char}
    (h : Diagnostic.missingQuote source quote ∈ rawReportsOf source) :
    missingQuotes source = [Diagnostic.missingQuote source quote] := by
  obtain ⟨found, last, hreports, hfound, hlast⟩ := (behind_ofSource source).exists_reports
  have hcharacters : ∀ report ∈ found,
      ∃ character, report.problem = .unexpectedCharacter character :=
    fun report hmem ↦ Token.problem_of_reportedBy hfound hmem
  have hnone : found.filter (fun report ↦ report.problem matches .unclosedString _) = [] := by
    rw [List.filter_eq_nil_iff]
    intro report hmem
    obtain ⟨character, hproblem⟩ := hcharacters report hmem
    simp [hproblem]
  rw [rawReportsOf, hreports] at h
  rw [missingQuotes, rawReportsOf, hreports, List.filter_append, hnone, List.nil_append]
  have hmem : Diagnostic.missingQuote source quote ∈ last := by
    refine (List.mem_append.1 h).resolve_left fun hmem ↦ ?_
    obtain ⟨character, hproblem⟩ := hcharacters _ hmem
    cases hproblem
  cases hlast with
  | nothing => cases hmem
  | string other =>
    rw [List.mem_singleton.1 hmem]
    rfl
  | comment start => cases List.mem_singleton.1 hmem

/-- The literal of any contents that do not end in a backslash is read as a string with these
contents, in front of whatever text. Every string of a text is such a literal, or is reported for
its missing quote, then once and alone, and takes up the rest of the text. -/
theorem strings_are_literals :
    (∀ quote contents following, IsQuote quote → ¬ EndsInBackslash contents →
      ∀ reader : Reader,
        let source := String.ofList (literal quote contents ++ following)
        let token : Token :=
          ⟨.string (String.ofList contents), ⟨.start, (literal quote contents).length⟩⟩
        reader.read (ofSource source) =
            ⟨token, [], ⟨Location.start.after (literal quote contents), following⟩⟩ ∧
          token.span.slice source = String.ofList (literal quote contents)) ∧
    ∀ source, ∀ lexeme ∈ (ofSource source).rawLexemes, ∀ contents,
      lexeme.token.kind = .string contents →
        ∃ before quote rest, lexeme.token.OpensString source before quote rest ∧
          (lexeme.reports = [] ∧ ¬ EndsInBackslash contents.toList ∧
              lexeme.token.span.slice source = String.ofList (literal quote contents.toList) ∨
            lexeme.reports = [Diagnostic.missingQuote source quote] ∧
              missingQuotes source = [Diagnostic.missingQuote source quote] ∧
              lexeme.token.span.slice source = String.ofList (quote :: rest) ∧
              NeverClosed quote rest) := by
  constructor
  · intro quote contents following hquote hends reader source token
    have hsource : source.toList = literal quote contents ++ following := String.toList_ofList
    have hraw : (ofSource source).readRaw = _ := readRaw_literal hquote hends hsource
    have hadvance : (ofSource source).advance (literal quote contents).length =
        ⟨Location.start.after (literal quote contents), following⟩ := by
      rw [ofSource, hsource, advance_append]
    have hgood : (ofSource source).readRaw.token.kind ≠ .bad := by
      rw [hraw]
      exact TokenKind.noConfusion
    constructor
    · cases reader with
      | raw => exact hraw.trans (congrArg (Reading.mk token []) hadvance)
      | filtered =>
        exact (read_of_ne_bad hgood).trans (hraw.trans (congrArg (Reading.mk token []) hadvance))
    · have hslice := (behind_ofSource source).slice_span (literal quote contents).length
      rw [show (ofSource source).text = source.toList from rfl, hsource, List.take_left] at hslice
      exact hslice
  · intro source lexeme hmem contents hkind
    obtain ⟨cursor, hreached, rfl⟩ := Reached.start.exists_of_mem hmem
    obtain ⟨passed, hbehind⟩ := hreached.exists_behind
    obtain ⟨before, quote, rest, hopens, hcases⟩ := hbehind.string_cases hkind
    refine ⟨before, quote, rest, hopens, ?_⟩
    rcases hcases with ⟨hreports, hends, hslice⟩ | ⟨hreports, hslice, hnever⟩
    · exact .inl ⟨hreports, hends, String.toList_inj.1 (hslice.trans String.toList_ofList.symm)⟩
    · have hreported : Diagnostic.missingQuote source quote ∈ rawReportsOf source :=
        List.mem_flatMap.2 ⟨_, hmem, by simp [hreports]⟩
      exact .inr ⟨hreports, missingQuotes_eq hreported,
        String.toList_inj.1 (hslice.trans String.toList_ofList.symm), hnever⟩

/-- A backslash in front of an escaped quote stays in the contents, in front of a text that opens
another literal. Where the escaped quote is the last one, the string is never closed. -/
theorem escapedQuotes_read :
    (ofSource "\"\\\\\"\"'").readRaw =
        ⟨⟨.string "\\\"", ⟨.start, 5⟩⟩, [], ⟨⟨1, 6, 5⟩, ['\'']⟩⟩ ∧
      missingQuotes "'a\\'" = [⟨.unclosedString '\'', ⟨⟨1, 5, 4⟩, 1⟩, .error⟩] := by
  have hmem : ⟨⟨.string "a'", ⟨.start, 4⟩⟩, [Diagnostic.missingQuote "'a\\'" '\'']⟩ ∈
      (ofSource "'a\\'").rawLexemes := by
    rw [rawLexemes_of_more (by decide)]
    exact List.mem_cons_self ..
  constructor
  · exact (strings_are_literals.1 '"' ['\\', '"'] ['\''] (.inl rfl) (by decide) .raw).1
  · obtain ⟨before, quote, rest, -, ⟨hreports, -⟩ | ⟨hreports, hmissing, -⟩⟩ :=
      strings_are_literals.2 _ _ hmem "a'" rfl
    · cases hreports
    · exact hmissing.trans hreports.symm

end Slang
