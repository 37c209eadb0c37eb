import Slang.Diagnostic

/-!
# What a rendered diagnostic looks like

A diagnostic is shown in three lines: its message behind a label, the line it is about behind a
gutter, and carets behind blanks. The label, the gutter and the carets are painted and nothing else
is. Of the terminal library it is only assumed that it leaves such a text as it is between two texts
of which nothing is seen; they may be empty, where the terminal wants no colours. So of each line
the same is seen with colours and without. A message or a line that brings escape characters of its
own is written as it is.
-/

namespace Slang

/-! ## What is seen of a text -/

/-- What is seen of a text, of which everything from an escape character to the next `m` is hidden.
The flag says whether the text begins in such a sequence. -/
def seenFrom : Bool → List Char → List Char
  | _, [] => []
  | true, character :: text => seenFrom (character ≠ 'm') text
  | false, character :: text =>
    if character = '\x1b' then seenFrom true text else character :: seenFrom false text

def seen (text : String) : List Char :=
  seenFrom false text.toList

theorem seenFrom_append {text : List Char} (h : '\x1b' ∉ text) (rest : List Char) :
    seenFrom false (text ++ rest) = text ++ seenFrom false rest := by
  induction text with
  | nil => rfl
  | cons character text ih =>
    obtain ⟨hcharacter, htext⟩ := not_or.1 (mt List.mem_cons.2 h)
    rw [List.cons_append, seenFrom, if_neg (Ne.symm hcharacter), ih htext]
    rfl

/-- The sequence that hides a text ends at the first `m`. -/
theorem seenFrom_hidden {text : List Char} (h : 'm' ∉ text) (rest : List Char) :
    seenFrom true (text ++ 'm' :: rest) = seenFrom false rest := by
  induction text with
  | nil => rfl
  | cons character text ih =>
    obtain ⟨hcharacter, htext⟩ := not_or.1 (mt List.mem_cons.2 h)
    rw [List.cons_append, seenFrom, decide_eq_true (Ne.symm hcharacter), ih htext]

theorem seen_append {text : String} (h : '\x1b' ∉ text.toList) (rest : String) :
    seen (text ++ rest) = text.toList ++ seen rest := by
  rw [seen, String.toList_append, seenFrom_append h]
  rfl

/-- Nothing is seen of the text: it is empty, or the sequence that sets display attributes by their
numbers. -/
def IsUnseen (text : String) : Prop :=
  text = "" ∨ ∃ codes : List Char, (∀ code ∈ codes, code.isDigit = true ∨ code = ';') ∧
    text = "\x1b[" ++ String.ofList codes ++ "m"

theorem IsUnseen.seen_append {text : String} (h : IsUnseen text) (rest : String) :
    seen (text ++ rest) = seen rest := by
  rcases h with rfl | ⟨codes, hcodes, rfl⟩
  · rw [String.empty_append]
  · have hnone : 'm' ∉ '[' :: codes := by
      rw [List.mem_cons, not_or]
      refine ⟨by decide, fun hmem ↦ ?_⟩
      rcases hcodes 'm' hmem with hdigit | hsemicolon
      · exact absurd hdigit (by decide)
      · exact absurd hsemicolon (by decide)
    have htext : ("\x1b[" ++ String.ofList codes ++ "m" ++ rest).toList =
        '\x1b' :: (('[' :: codes) ++ 'm' :: rest.toList) := by
      simp [String.toList_append]
    rw [seen, htext, seenFrom, if_pos rfl, seenFrom_hidden hnone]
    rfl

/-! ## Painted texts -/

/-- What a terminal library promises of the texts it writes in a paint. It may rewrite escape
characters inside a text, so nothing is known of texts with such characters. -/
structure Painter.Wraps (painter : Painter) (opening closing : Paint → String) : Prop where
  opening_unseen : ∀ paint, IsUnseen (opening paint)
  closing_unseen : ∀ paint, IsUnseen (closing paint)
  wraps : ∀ paint text, '\x1b' ∉ text.toList →
    painter paint text = opening paint ++ text ++ closing paint

/-- A terminal that shows colours gets them between escape sequences. -/
theorem Painter.ansi_wraps :
    Painter.ansi.Wraps (fun paint ↦ "\x1b[" ++ paint.code ++ "m") fun _ ↦ "\x1b[0m" where
  opening_unseen paint := .inr ⟨paint.code.toList, by cases paint <;> simp [Paint.code], by simp⟩
  closing_unseen _ := .inr ⟨['0'], by simp, rfl⟩
  wraps _ _ _ := by simp only [Painter.ansi, String.append_assoc]

/-- Writes every text as it is. -/
def Painter.plain : Painter :=
  fun _ text ↦ text

/-- Where colours are disabled, there are no sequences. -/
theorem Painter.plain_wraps : Painter.plain.Wraps (fun _ ↦ "") fun _ ↦ "" where
  opening_unseen _ := .inl rfl
  closing_unseen _ := .inl rfl
  wraps _ _ _ := by simp only [Painter.plain, String.empty_append, String.append_empty]

namespace Painter.Wraps

variable {painter : Painter} {opening closing : Paint → String}
  (h : painter.Wraps opening closing)
include h

theorem seen_append {text : String} (htext : '\x1b' ∉ text.toList) (paint : Paint)
    (rest : String) : seen (painter paint text ++ rest) = text.toList ++ seen rest := by
  rw [h.wraps paint text htext, String.append_assoc, String.append_assoc,
    (h.opening_unseen paint).seen_append, Slang.seen_append htext,
    (h.closing_unseen paint).seen_append]

theorem seen_eq {text : String} (htext : '\x1b' ∉ text.toList) (paint : Paint) :
    seen (painter paint text) = text.toList := by
  have hseen := h.seen_append htext paint ""
  rwa [String.append_empty, show seen "" = [] from rfl, List.append_nil] at hseen

end Painter.Wraps

/-! ## The lines of a rendering -/

theorem escape_not_mem_toDigits (number : Nat) : '\x1b' ∉ Nat.toDigits 10 number := by
  intro hmem
  have hdigit := Nat.isDigit_of_mem_toDigits (by decide) (by decide) hmem
  exact absurd hdigit (by decide)

namespace Diagnostic

theorem escape_not_mem_gutter (span : Span) : '\x1b' ∉ (gutter span).toList := by
  simp [gutter, Location.text, escape_not_mem_toDigits]

/-- The three lines of a diagnostic that is about the given line and starts behind `width` of its
characters, with painted texts written by the given painter. The carets stand behind as many blanks
as the gutter and that part of the line have characters. -/
def picture (painter : Painter) (gutter line : String) (width : Nat) (diagnostic : Diagnostic) :
    List String :=
  let label := match diagnostic.severity with
    | .error => painter .boldRed "error:"
    | .warning => painter .boldYellow "warning:"
  let blanks := String.ofList (List.replicate (gutter.length + width) ' ')
  let carets := String.ofList (List.replicate (max diagnostic.span.length 1) '^')
  [label ++ (" " ++ diagnostic.problem.message), painter .brightBlue gutter ++ line,
    blanks ++ painter .boldRed carets]

theorem lineText_eq_getD (lines : List String) (line : Nat) :
    lineText lines line = ("" :: lines).getD line "" := by
  cases line <;> rfl

/-- Without colours, painted texts are written as they are. -/
theorem render_eq_picture (colors : Option Painter) (lines : List String)
    (diagnostic : Diagnostic) :
    let span := diagnostic.span
    diagnostic.render colors lines =
      String.join ((diagnostic.picture (colors.getD .plain) (gutter span)
        (lineText lines span.start.line) (span.start.column - 1)).map (· ++ "\n")) := by
  have happly (paint : Paint) (text : String) :
      paint.apply colors text = colors.getD .plain paint text := by
    cases colors <;> rfl
  have hlabel : diagnostic.severity.label colors = match diagnostic.severity with
      | .error => colors.getD .plain .boldRed "error:"
      | .warning => colors.getD .plain .boldYellow "warning:" := by
    cases diagnostic.severity <;> exact happly _ _
  simp only [render, picture, hlabel, happly, List.map_cons, List.map_nil, String.join_cons,
    String.join_nil, String.append_assoc, String.append_empty]
  rfl

section Wrapped

variable {painter : Painter} {opening closing : Paint → String}
  (h : painter.Wraps opening closing) {gutter : String} (hgutter : '\x1b' ∉ gutter.toList)
  (line : String) (width : Nat) (diagnostic : Diagnostic)
include h hgutter

/-- The label, the gutter and the carets are wrapped. -/
theorem picture_of_wraps :
    diagnostic.picture painter gutter line width =
      diagnostic.picture (fun paint text ↦ opening paint ++ text ++ closing paint) gutter line
        width := by
  have herror := h.wraps .boldRed "error:" (by decide)
  have hwarning := h.wraps .boldYellow "warning:" (by decide)
  have hcarets := h.wraps .boldRed
    (String.ofList (List.replicate (max diagnostic.span.length 1) '^')) (by simp)
  simp only [picture, herror, hwarning, hcarets, h.wraps .brightBlue gutter hgutter]

/-- What is seen of the three lines. -/
theorem seen_picture :
    (diagnostic.picture painter gutter line width).map seen =
      [(match diagnostic.severity with
          | .error => "error:".toList
          | .warning => "warning:".toList) ++ seen (" " ++ diagnostic.problem.message),
        gutter.toList ++ seen line,
        List.replicate (gutter.length + width) ' ' ++
          List.replicate (max diagnostic.span.length 1) '^'] := by
  have hline := h.seen_append hgutter .brightBlue line
  have hblanks : '\x1b' ∉ (String.ofList (List.replicate (gutter.length + width) ' ')).toList := by
    simp
  have hcarets := seen_append hblanks
    (painter .boldRed (String.ofList (List.replicate (max diagnostic.span.length 1) '^')))
  rw [h.seen_eq (by simp), String.toList_ofList, String.toList_ofList] at hcarets
  have herror : '\x1b' ∉ "error:".toList := by decide
  have hwarning : '\x1b' ∉ "warning:".toList := by decide
  cases hseverity : diagnostic.severity with
  | error =>
    have hlabel := h.seen_append herror .boldRed (" " ++ diagnostic.problem.message)
    simp only [picture, hseverity, List.map_cons, List.map_nil, hlabel, hline, hcarets]
  | warning =>
    have hlabel := h.seen_append hwarning .boldYellow (" " ++ diagnostic.problem.message)
    simp only [picture, hseverity, List.map_cons, List.map_nil, hlabel, hline, hcarets]

end Wrapped

end Diagnostic

end Slang
