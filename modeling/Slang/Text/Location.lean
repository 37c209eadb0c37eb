/-!
# Locations and spans of a source text

A location counts lines and columns in characters from one and offsets in UTF-8 bytes from zero.
A span is a location together with the number of characters it covers.
-/

namespace Slang

/-- The number of UTF-8 bytes of a text. -/
def byteLength : List Char → Nat
  | [] => 0
  | character :: text => character.utf8Size + byteLength text

theorem byteLength_eq (text : List Char) : byteLength text = (String.ofList text).utf8ByteSize := by
  induction text with
  | nil => rfl
  | cons character text ih =>
    rw [byteLength, ih, String.ofList_cons, String.utf8ByteSize_append,
      String.utf8ByteSize_singleton]

/-- A place between two characters of a text. -/
structure Location where
  line : Nat
  column : Nat
  /-- The UTF-8 bytes before this place. -/
  offset : Nat
  deriving Repr, DecidableEq

namespace Location

/-- Where every text begins. -/
def start : Location := ⟨1, 1, 0⟩

/-- The location behind one more character. -/
def step (here : Location) (character : Char) : Location :=
  if character = '\n' then ⟨here.line + 1, 1, here.offset + character.utf8Size⟩
  else ⟨here.line, here.column + 1, here.offset + character.utf8Size⟩

/-- The location behind a piece of text. -/
def after (here : Location) (text : List Char) : Location :=
  text.foldl step here

@[simp] theorem after_nil (here : Location) : here.after [] = here := rfl

@[simp] theorem after_cons (here : Location) (character : Char) (text : List Char) :
    here.after (character :: text) = (here.step character).after text := rfl

theorem after_append (here : Location) (first second : List Char) :
    here.after (first ++ second) = (here.after first).after second :=
  List.foldl_append

theorem offset_after (here : Location) (text : List Char) :
    (here.after text).offset = here.offset + byteLength text := by
  induction text generalizing here with
  | nil => rfl
  | cons character text ih =>
    rw [after_cons, ih, byteLength]
    unfold step
    split <;> simp only <;> omega

theorem line_after (here : Location) (text : List Char) :
    (here.after text).line = here.line + text.count '\n' := by
  induction text generalizing here with
  | nil => rfl
  | cons character text ih =>
    rw [after_cons, ih, step]
    by_cases hbreak : character = '\n'
    · rw [if_pos hbreak, hbreak, List.count_cons_self]
      exact Nat.add_right_comm here.line 1 (text.count '\n')
    · rw [if_neg hbreak, List.count_cons_of_ne hbreak]

end Location

/-- A stretch of characters. -/
structure Span where
  start : Location
  length : Nat
  deriving Repr, DecidableEq

namespace Span

/-- The text left when exactly `offset` bytes are taken away, if those bytes are whole
characters of it. -/
def dropBytes : Nat → List Char → Option (List Char)
  | 0, text => some text
  | _ + 1, [] => none
  | offset + 1, character :: text =>
    if character.utf8Size ≤ offset + 1 then dropBytes (offset + 1 - character.utf8Size) text
    else none

/-- The characters of a text that a span covers. A span that starts inside a character or past
the end covers nothing, and one that is too long ends with the text. -/
def slice (span : Span) (source : String) : String :=
  match dropBytes span.start.offset source.toList with
  | some text => String.ofList (text.take span.length)
  | none => ""

@[simp] theorem dropBytes_zero (text : List Char) : dropBytes 0 text = some text := by
  cases text <;> rfl

theorem dropBytes_append (first second : List Char) :
    dropBytes (byteLength first) (first ++ second) = some second := by
  induction first with
  | nil => simp [byteLength]
  | cons character first ih =>
    have hsize := character.utf8Size_pos
    obtain ⟨offset, hoffset⟩ : ∃ offset, character.utf8Size + byteLength first = offset + 1 :=
      ⟨character.utf8Size + byteLength first - 1, by omega⟩
    rw [byteLength, hoffset, List.cons_append, dropBytes, if_pos (by omega), ← hoffset,
      Nat.add_sub_cancel_left, ih]

end Span

/-- The lines of a text: what stands between its newline characters. -/
def linesOf (source : String) : List String :=
  (source.toList.splitOn '\n').map String.ofList

end Slang
