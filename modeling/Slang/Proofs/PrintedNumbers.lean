import Slang.Proofs.DecimalTexts
import Slang.Proofs.SignedMagnitudes

/-!
# Printed numbers

A finite number is printed as the shortest decimal that reads back. From `0.000001` up to the
twenty-first power of ten the text is a numeral, and read as a source it is that numeral alone, with
the number as its value. Outside that range the text has an exponent, which no numeral has. Either
way the text has a single meaning, so that different numbers have different texts.
-/

namespace Slang

open Binary64

/-! ## Literals -/

/-- Read as a source, the text is a single number, and whichever way it and further tokens are asked
for, there is the end of the text behind it and nothing to report. -/
def IsLiteralOf (number : Float) (source : String) : Prop :=
  ∀ (reader : Reader) (later : List Reader),
    (Cursor.ofSource source).answers (reader :: later) =
      ⟨⟨.number number, ⟨.start, source.length⟩⟩, []⟩ ::
        List.replicate later.length (.ended source)

namespace Cursor

variable {cursor : Cursor}

/-- No trivia are passed over in front of a numeral. -/
theorem start_of_numeral {first : Char} {rest : List Char}
    (begins : first.isDigit = true ∨ first = '.' ∧ rest.head?.any Char.isDigit = true)
    (htext : cursor.text = first :: rest) :
    cursor.start = cursor ∧ opensComment (first :: rest) = false := by
  have hblank : Text.isBlank first = false := by
    rcases begins with hdigit | ⟨rfl, -⟩
    · refine Bool.eq_false_iff.2 fun hblank ↦ ?_
      rw [Text.isDigit_of_isBlank hblank] at hdigit
      cases hdigit
    · decide
  have hslash : first ≠ '/' := by
    rintro rfl
    rcases begins with hdigit | ⟨hpoint, -⟩
    · cases hdigit
    · cases hpoint
  have hlength : Trivia.length cursor.text = 0 := by
    rw [htext]
    exact Trivia.length_of_not_isBlank hblank (fun hline ↦ hslash hline.1)
      fun hblock ↦ hslash hblock.1
  refine ⟨?_, Snippet.opensComment_eq_false fun hblock ↦ hslash hblock.1⟩
  rw [start, hlength]
  rfl

theorem readRaw_numeral {numeral : Numeral} (h : numeral.IsWellFormed)
    (htext : cursor.text = numeral.text) :
    cursor.readRaw =
      ⟨⟨.number numeral.value, cursor.span numeral.text.length⟩, [],
        cursor.advance numeral.text.length⟩ := by
  obtain ⟨first, rest, hfirst, begins⟩ := h.exists_cons
  have hcons : cursor.text = first :: rest := htext.trans hfirst
  obtain ⟨hstart, hcomment⟩ := start_of_numeral begins hcons
  have hnumeral : Numeral.ofText (first :: rest) = numeral := by rw [← hfirst, h.ofText_text]
  rw [readRaw_of_token (by rw [hstart, hcons]) hcomment, hstart, Shape.ofText_numeral begins,
    hnumeral, numeral.length_text]
  rfl

end Cursor

open Cursor

theorem Reader.read_of_ne_bad {cursor : Cursor} (h : cursor.readRaw.token.kind ≠ .bad)
    (reader : Reader) : reader.read cursor = cursor.readRaw := by
  cases reader with
  | raw => rfl
  | filtered => exact Cursor.read_of_ne_bad h

/-- A numeral is a literal of its value. -/
theorem Numeral.IsWellFormed.isLiteralOf {numeral : Numeral} (h : numeral.IsWellFormed) :
    IsLiteralOf numeral.value (String.ofList numeral.text) := by
  intro reader later
  have htext : (ofSource (String.ofList numeral.text)).text = numeral.text := String.toList_ofList
  have hraw := readRaw_numeral h htext
  have hgood : (ofSource (String.ofList numeral.text)).readRaw.token.kind ≠ .bad := by
    rw [hraw]
    exact TokenKind.noConfusion
  have hends : ((ofSource (String.ofList numeral.text)).advance numeral.text.length).text = [] := by
    rw [advance, htext, List.drop_length]
  have hbehind := (behind_ofSource (String.ofList numeral.text)).advance numeral.text.length
  rw [answers, reader.read_of_ne_bad hgood, hraw, hbehind.answers_of_nil hends,
    String.length_ofList]
  rfl

namespace Decimal

/-! ## The place of the point -/

section Point

variable {decimal : Decimal} {magnitude : Nat} (hpos : 0 < magnitude)
  (hreads : decimal.ReadsAs magnitude)
include hpos hreads

theorem lt_point {digits : Nat} (h : Binary64.nearest (tenPow digits) 1 < magnitude) :
    (digits : ℤ) < decimal.point := by
  by_contra hle
  have hbound : decimal.number ≤ (tenPow digits : ℕ) / (1 : ℕ) := by
    rw [cast_tenPow, Nat.cast_one, div_one, ← zpow_natCast]
    exact (number_bounds (coefficient_ne_zero hpos hreads)).2.le.trans
      (zpow_le_zpow_right₀ (by norm_num) (not_lt.1 hle))
  exact h.not_ge ((readsAs_iff.1 hreads).mono (Binary64.isNearest_nearest _ Nat.one_pos) hbound)

theorem point_le {places : Nat} (h : magnitude < Binary64.nearest 1 (tenPow places)) :
    decimal.point ≤ -places := by
  by_contra hlt
  have hbound : ((1 : ℕ) : ℚ) / (tenPow places : ℕ) ≤ decimal.number := by
    rw [cast_tenPow, Nat.cast_one, one_div, ← zpow_natCast, ← zpow_neg]
    exact (zpow_le_zpow_right₀ (by norm_num) (by omega)).trans
      (number_bounds (coefficient_ne_zero hpos hreads)).1
  exact h.not_ge ((Binary64.isNearest_nearest 1 (tenPow_pos _)).mono (readsAs_iff.1 hreads) hbound)

end Point

end Decimal

/-! ## The texts of magnitudes -/

namespace Number

open Decimal

variable {magnitude : Nat}

/-- In the plain range, the text of a magnitude is a numeral. -/
theorem exists_numeral (h : magnitude = 0 ∨ isPlain magnitude = true)
    (hfinite : magnitude < infinity) :
    ∃ numeral : Numeral, numeral.IsWellFormed ∧ magnitudeText magnitude = numeral.text ∧
      numeral.decimal.IsShortest magnitude := by
  rcases h with rfl | hplain
  · have hformed : (Numeral.mk ['0'] none).IsWellFormed :=
      ⟨List.forall_mem_singleton.2 rfl, List.cons_ne_nil _ _⟩
    have hreads : (Numeral.mk ['0'] none).decimal.ReadsAs 0 := by decide +kernel
    exact ⟨_, hformed, if_pos rfl, readsAs_iff.1 hreads, fun _ _ ↦ Nat.zero_le _⟩
  · have hpos : 0 < magnitude := by
      rw [isPlain, Bool.and_eq_true, decide_eq_true_eq] at hplain
      exact Nat.lt_of_lt_of_le (by decide +kernel) hplain.1
    have hshortest := isShortest_shortest hpos hfinite.le
    refine ⟨positionalNumeral (shortest magnitude),
      isWellFormed_positionalNumeral (coefficient_ne_zero hpos hshortest.readsAs), ?_,
      hshortest.of_number_eq hpos (number_positionalNumeral _).symm⟩
    rw [magnitudeText, if_neg hpos.ne', if_pos hplain, text_positionalNumeral]

/-- Outside of it, the text has an exponent, whose sign tells on which side the magnitude is. -/
theorem exists_exponentNumeral (hpos : 0 < magnitude) (hplain : isPlain magnitude = false)
    (hfinite : magnitude < infinity) :
    ∃ numeral : ExponentNumeral, numeral.IsWellFormed ∧ magnitudeText magnitude = numeral.text ∧
      (numeral.enlarges = true ↔ Binary64.nearest (tenPow 21) 1 ≤ magnitude) ∧
      numeral.decimal.IsShortest magnitude := by
  have hshortest := isShortest_shortest hpos hfinite.le
  have hcoefficient := coefficient_ne_zero hpos hshortest.readsAs
  -- Outside the plain range the point is not right behind the first digit.
  have hpoint : (shortest magnitude).point ≠ 1 ∧
      (1 ≤ (shortest magnitude).point ↔ Binary64.nearest (tenPow 21) 1 ≤ magnitude) := by
    rw [isPlain, Bool.and_eq_false_iff, decide_eq_false_iff_not, decide_eq_false_iff_not, not_le,
      not_lt] at hplain
    rcases hplain with hsmall | hlarge
    · have hle := point_le hpos hshortest.readsAs hsmall
      have hlimit : Binary64.nearest 1 (tenPow 6) < Binary64.nearest (tenPow 21) 1 := by
        decide +kernel
      omega
    · have hten : Binary64.nearest (tenPow 1) 1 < Binary64.nearest (tenPow 21) 1 := by
        decide +kernel
      have hlt := lt_point hpos hshortest.readsAs (hten.trans_le hlarge)
      omega
  refine ⟨exponentNumeral (shortest magnitude), isWellFormed_exponentNumeral hcoefficient hpoint.1,
    ?_, decide_eq_true_iff.trans hpoint.2,
    hshortest.of_number_eq hpos (number_exponentNumeral hcoefficient).symm⟩
  rw [magnitudeText, if_neg hpos.ne', hplain, if_neg Bool.false_ne_true, text_exponentNumeral]

/-- Every finite magnitude can be told from its text. -/
theorem exists_denotes (h : magnitude < infinity) :
    ∃ decimal, Denotes (magnitudeText magnitude) decimal ∧ decimal.ReadsAs magnitude := by
  by_cases hplain : magnitude = 0 ∨ isPlain magnitude = true
  · obtain ⟨numeral, hformed, htext, hshortest⟩ := exists_numeral hplain h
    exact ⟨_, htext ▸ .plain hformed, hshortest.readsAs⟩
  · obtain ⟨hpos, hplain⟩ := not_or.1 hplain
    obtain ⟨numeral, hformed, htext, -, hshortest⟩ :=
      exists_exponentNumeral (Nat.pos_of_ne_zero hpos) (Bool.eq_false_iff.2 hplain) h
    exact ⟨_, htext ▸ .exponent hformed, hshortest.readsAs⟩

theorem magnitudeText_inj {first second : Nat} (hfirst : first < infinity)
    (hsecond : second < infinity) (h : magnitudeText first = magnitudeText second) :
    first = second := by
  obtain ⟨decimal, hdenotes, hreads⟩ := exists_denotes hfirst
  obtain ⟨decimal', hdenotes', hreads'⟩ := exists_denotes hsecond
  obtain rfl : decimal = decimal' := hdenotes.unique hdenotes' h
  exact hreads.symm.trans hreads'

/-! ## The texts of numbers -/

/-- The text of a number without its sign. -/
def unsignedText (magnitude : Nat) : List Char :=
  if magnitude = infinity then "Infinity".toList else magnitudeText magnitude

/-- A number is printed as its magnitude, behind a sign if it is negative. -/
theorem format_eq {number : Float} (h : magnitudeOf number ≤ infinity) :
    format number = String.ofList
      ((if signed number < 0 then ['-'] else []) ++ unsignedText (magnitudeOf number)) := by
  have hsign := signed_lt_zero_iff number
  unfold format unsignedText
  unfold magnitudeOf at h hsign ⊢
  dsimp only
  rw [if_neg h.not_gt]
  by_cases hinfinite : number.toBits.toNat % twoPow 63 = infinity
  · rw [if_pos hinfinite, if_pos hinfinite]
    rw [hinfinite, and_iff_left (by decide)] at hsign
    by_cases hnegative : signed number < 0
    · rw [if_pos hnegative, if_pos (decide_eq_true (hsign.1 hnegative))]
      rfl
    · rw [if_neg hnegative, if_neg (by simpa using mt hsign.2 hnegative)]
      rfl
  · rw [if_neg hinfinite, if_neg hinfinite]
    by_cases hnegative : signed number < 0
    · rw [if_pos hnegative, if_pos (by simpa using hsign.1 hnegative)]
      rfl
    · rw [if_neg hnegative, if_neg (by simpa using mt hsign.2 hnegative)]
      rfl

/-- The bounds of the plain range, and zero. -/
theorem signed_bounds : signed 0 = 0 ∧ signed 1e-6 = Binary64.nearest 1 (tenPow 6) ∧
    signed 1e21 = Binary64.nearest (tenPow 21) 1 := by
  decide +kernel

theorem format_neg {number : Float} (h : 0 < number) :
    format (-number) = "-" ++ format number := by
  obtain ⟨-, hle, hpos⟩ := lt_iff.1 h
  rw [signed_bounds.1] at hpos
  have hmagnitude := magnitudeOf_neg hle
  rw [format_eq (hmagnitude.trans_le hle), format_eq hle, hmagnitude, signed_neg hle,
    if_pos (by omega), if_neg (by omega), String.ofList_append]
  rfl

section Plain

variable {number : Float} (h : number = 0 ∨ 1e-6 ≤ number ∧ number < 1e21)
include h

theorem plain_of_range :
    0 ≤ signed number ∧ number.toBits.toNat = magnitudeOf number ∧
      magnitudeOf number < infinity ∧
      (magnitudeOf number = 0 ∨ isPlain (magnitudeOf number) = true) := by
  rcases h with rfl | ⟨hleast, hlimit⟩
  · decide +kernel
  · obtain ⟨-, hsigned, hsigned'⟩ := signed_bounds
    have hpos : 0 < Binary64.nearest 1 (tenPow 6) := by decide +kernel
    have hfinite : Binary64.nearest (tenPow 21) 1 < infinity := by decide +kernel
    have hlower := (le_iff.1 hleast).2.2
    have hupper := (lt_iff.1 hlimit).2.2
    have hmagnitude := natAbs_signed number
    rw [hsigned] at hlower
    rw [hsigned'] at hupper
    have hpositive : 0 < signed number := by omega
    refine ⟨hpositive.le, toNat_toBits hpositive, by omega, .inr ?_⟩
    rw [isPlain, Bool.and_eq_true, decide_eq_true_eq, decide_eq_true_eq]
    omega

/-- In the plain range, what is printed is a literal of the number. -/
theorem exists_literal :
    ∃ numeral : Numeral, numeral.IsWellFormed ∧ numeral.value = number ∧
      format number = String.ofList numeral.text ∧
      numeral.decimal.IsShortest (magnitudeOf number) := by
  obtain ⟨hsign, hbits, hfinite, hplain⟩ := plain_of_range h
  obtain ⟨numeral, hformed, htext, hshortest⟩ := exists_numeral hplain hfinite
  refine ⟨numeral, hformed, ?_, ?_, hshortest⟩
  · have hnearest := hshortest.isNearest
    rw [numeral.number_decimal, ← hbits] at hnearest
    exact Float.toBits_inj.1 (UInt64.toNat_inj.1 (numeral.isNearest_value.unique hnearest))
  · rw [format_eq hfinite.le, if_neg hsign.not_gt, unsignedText, if_neg hfinite.ne, htext]
    rfl

end Plain

section Exponent

variable {number : Float} (hfinite : magnitudeOf number < infinity)
include hfinite

theorem lt_zero_iff : number < 0 ↔ signed number < 0 := by
  have hbound : magnitudeOf 0 ≤ infinity := by decide +kernel
  rw [lt_iff, signed_bounds.1, and_iff_right hfinite.le, and_iff_right hbound]

theorem beq_zero_iff : (number == 0) = true ↔ magnitudeOf number = 0 := by
  have hbound : magnitudeOf 0 ≤ infinity := by decide +kernel
  rw [beq_iff, signed_bounds.1, and_iff_right hfinite.le, and_iff_right hbound, ← natAbs_signed,
    Int.natAbs_eq_zero]

theorem abs_lt_iff : number.abs < 1e-6 ↔ magnitudeOf number < Binary64.nearest 1 (tenPow 6) := by
  have hbound : magnitudeOf 1e-6 ≤ infinity := by decide +kernel
  rw [lt_iff, signed_abs hfinite.le, magnitudeOf_abs hfinite.le, signed_bounds.2.1,
    and_iff_right hfinite.le, and_iff_right hbound, Int.ofNat_lt]

theorem le_abs_iff : 1e21 ≤ number.abs ↔ Binary64.nearest (tenPow 21) 1 ≤ magnitudeOf number := by
  have hbound : magnitudeOf 1e21 ≤ infinity := by decide +kernel
  rw [le_iff, signed_abs hfinite.le, magnitudeOf_abs hfinite.le, signed_bounds.2.2,
    and_iff_right hbound, and_iff_right hfinite.le, Int.ofNat_le]

/-- A finite number outside the plain range is printed with an exponent. -/
theorem exists_exponent (hzero : (number == 0) = false)
    (hrange : number.abs < 1e-6 ∨ 1e21 ≤ number.abs) :
    ∃ numeral : ExponentNumeral, numeral.IsWellFormed ∧
      format number = String.ofList ((if number < 0 then ['-'] else []) ++ numeral.text) ∧
      (numeral.enlarges = true ↔ 1e21 ≤ number.abs) ∧
      numeral.decimal.IsShortest (magnitudeOf number) := by
  have hpos : 0 < magnitudeOf number := by
    refine Nat.pos_of_ne_zero fun hnone ↦ ?_
    rw [(beq_zero_iff hfinite).2 hnone] at hzero
    cases hzero
  have hplain : isPlain (magnitudeOf number) = false := by
    rw [isPlain, Bool.and_eq_false_iff, decide_eq_false_iff_not, decide_eq_false_iff_not, not_le,
      not_lt, ← abs_lt_iff hfinite, ← le_abs_iff hfinite]
    exact hrange
  obtain ⟨numeral, hformed, htext, hlarge, hshortest⟩ := exists_exponentNumeral hpos hplain hfinite
  refine ⟨numeral, hformed, ?_, hlarge.trans (le_abs_iff hfinite).symm, hshortest⟩
  rw [format_eq hfinite.le, unsignedText, if_neg hfinite.ne, htext]
  simp only [lt_zero_iff hfinite]

end Exponent

/-- A sign is told apart from a text that does not begin with one. -/
theorem sign_inj {negative negative' : Prop} [Decidable negative] [Decidable negative']
    {text text' : List Char} (htext : text.head? ≠ some '-') (htext' : text'.head? ≠ some '-')
    (h : (if negative then ['-'] else []) ++ text = (if negative' then ['-'] else []) ++ text') :
    (negative ↔ negative') ∧ text = text' := by
  by_cases hsign : negative
  · by_cases hsign' : negative'
    · rw [if_pos hsign, if_pos hsign'] at h
      exact ⟨iff_of_true hsign hsign', List.append_cancel_left h⟩
    · rw [if_pos hsign, if_neg hsign'] at h
      exact absurd (congrArg List.head? h).symm htext'
  · by_cases hsign' : negative'
    · rw [if_neg hsign, if_pos hsign'] at h
      exact absurd (congrArg List.head? h) htext
    · rw [if_neg hsign, if_neg hsign'] at h
      exact ⟨iff_of_false hsign hsign', List.append_cancel_left h⟩

/-- Finite numbers that are printed alike are the same, or both of them are zeros. -/
theorem signed_eq_of_format_eq {first second : Float} (hfirst : magnitudeOf first < infinity)
    (hsecond : magnitudeOf second < infinity) (h : format first = format second) :
    signed first = signed second := by
  obtain ⟨decimal, hdenotes, -⟩ := exists_denotes hfirst
  obtain ⟨decimal', hdenotes', -⟩ := exists_denotes hsecond
  rw [format_eq hfirst.le, format_eq hsecond.le, String.ofList_inj, unsignedText, unsignedText,
    if_neg hfirst.ne, if_neg hsecond.ne] at h
  obtain ⟨hsign, htext⟩ := sign_inj hdenotes.head?_ne_minus hdenotes'.head?_ne_minus h
  have hmagnitude := magnitudeText_inj hfirst hsecond htext
  rw [← natAbs_signed, ← natAbs_signed] at hmagnitude
  omega

end Number

/-- In the plain range, what is printed for a number is a literal of that number. Outside of it, the
text is a digit, perhaps more of them behind a point, and a power of ten, positive for large numbers
and negative for small ones. Either way it has the fewest digits that read back, a negative number
has the text of the positive one behind a sign, and different numbers have different texts. -/
theorem printed_numbers_read_back :
    (∀ number : Float, number = 0 ∨ 1e-6 ≤ number ∧ number < 1e21 →
      IsLiteralOf number (Number.format number) ∧
        ∃ numeral : Numeral, numeral.IsWellFormed ∧
          Number.format number = String.ofList numeral.text ∧
          numeral.decimal.IsShortest (magnitudeOf number)) ∧
    (∀ number : Float, 0 < number → Number.format (-number) = "-" ++ Number.format number) ∧
    (∀ number : Float, number.isFinite = true → (number == 0) = false →
      number.abs < 1e-6 ∨ 1e21 ≤ number.abs →
        ∃ numeral : ExponentNumeral, numeral.IsWellFormed ∧
          Number.format number =
            String.ofList ((if number < 0 then ['-'] else []) ++ numeral.text) ∧
          (numeral.enlarges = true ↔ 1e21 ≤ number.abs) ∧
          numeral.decimal.IsShortest (magnitudeOf number)) ∧
    ∀ first second : Float, first.isFinite = true → second.isFinite = true →
      Number.format first = Number.format second → (first == second) = true := by
  refine ⟨fun number hrange ↦ ?_, fun number ↦ Number.format_neg, fun number hfinite ↦ ?_,
    fun first second hfirst hsecond hformat ↦ ?_⟩
  · obtain ⟨numeral, hformed, rfl, hformat, hshortest⟩ := Number.exists_literal hrange
    exact ⟨hformat ▸ hformed.isLiteralOf, numeral, hformed, hformat, hshortest⟩
  · exact Number.exists_exponent ((isFinite_iff number).1 hfinite)
  · rw [isFinite_iff] at hfirst hsecond
    exact beq_iff.2 ⟨hfirst.le, hsecond.le, Number.signed_eq_of_format_eq hfirst hsecond hformat⟩

/-- The least number of the plain range, the largest negative number, and the two zeros. -/
theorem printedBounds_read_back :
    IsLiteralOf 1e-6 "0.000001" ∧ Number.format (-1e-6) = "-0.000001" ∧
      (∃ numeral : ExponentNumeral, numeral.IsWellFormed ∧
        "-5e-324" = String.ofList ('-' :: numeral.text) ∧ numeral.enlarges = false) ∧
      ((0 : Float) == -0) = true := by
  have hleast : Number.format 1e-6 = "0.000001" := by decide +kernel
  have htiny : Number.format (-5e-324) = "-5e-324" := by decide +kernel
  obtain ⟨hliteral, hneg, hexponent, hsame⟩ := printed_numbers_read_back
  refine ⟨?_, ?_, ?_, hsame 0 (-0) (by decide +kernel) (by decide +kernel) (by decide +kernel)⟩
  · rw [← hleast]
    exact (hliteral 1e-6 (by decide +kernel)).1
  · rw [hneg 1e-6 (by decide +kernel), hleast]
    rfl
  · obtain ⟨numeral, hformed, htext, hlarge, -⟩ :=
      hexponent (-5e-324) (by decide +kernel) (by decide +kernel) (by decide +kernel)
    rw [htiny, if_pos (by decide +kernel)] at htext
    refine ⟨numeral, hformed, htext, Bool.eq_false_iff.2 fun hlarger ↦ ?_⟩
    exact absurd (hlarge.1 hlarger) (by decide +kernel)

end Slang
