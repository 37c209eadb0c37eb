import Slang.Proofs.LexicalClasses
import Slang.Proofs.ShortestDecimals

/-!
# The texts of decimals

A decimal is written as a numeral, with zeros between its digits and its point, or with the point
behind its first digit and a power of ten. Both texts stand for the decimal, and as the numeral at
the front of a text is as long as it can be, a text stands for one decimal at most.
-/

namespace Slang

theorem isDigit_toDigits (number : Nat) :
    ∀ character ∈ Nat.toDigits 10 number, character.isDigit = true :=
  fun _ hmem ↦ Nat.isDigit_of_mem_toDigits (by decide) (by decide) hmem

theorem head?_toDigits {number : Nat} (h : number ≠ 0) :
    (Nat.toDigits 10 number).head? ≠ some '0' := by
  induction number using Nat.strongRecOn with
  | ind number ih =>
    rcases Nat.lt_or_ge number 10 with hless | hmore
    · rw [Nat.toDigits_of_lt_base hless]
      simpa [Nat.digitChar_eq_zero] using h
    · have hquotient : number / 10 ≠ 0 := by omega
      rw [Nat.toDigits_of_base_le (by decide) hmore,
        List.head?_append_of_ne_nil _ Nat.toDigits_ne_nil]
      exact ih _ (by omega) hquotient

/-! ## Numerals in a text -/

namespace Numeral

/-- The decimal that a numeral spells. -/
def decimal (numeral : Numeral) : Decimal :=
  ⟨Nat.ofDigitChars 10 numeral.digits 0, -(numeral.fraction.getD []).length⟩

theorem number_decimal (numeral : Numeral) : numeral.decimal.number = numeral.number := by
  rw [number_eq, Decimal.number, decimal, Decimal.cast_tenPow, zpow_neg, zpow_natCast]
  exact (div_eq_mul_inv _ _).symm

/-- A numeral is read back in front of anything that does not go on with it. -/
theorem ofText_append {numeral : Numeral}
    (h : ∀ character ∈ numeral.digits, character.isDigit = true) {after : List Char}
    (hafter : ∀ character ∈ after.head?, character.isDigit = false ∧ character ≠ '.') :
    ofText (numeral.text ++ after) = numeral := by
  obtain ⟨whole, fraction⟩ := numeral
  have hwhole : ∀ character ∈ whole, character.isDigit = true :=
    fun character hmem ↦ h character (List.mem_append_left _ hmem)
  cases fraction with
  | none =>
    rw [text, Option.elim, List.append_nil]
    exact ofText_whole hwhole hafter
  | some fraction =>
    have hfraction : ∀ character ∈ fraction, character.isDigit = true :=
      fun character hmem ↦ h character (List.mem_append_right _ hmem)
    have hnone : after.takeWhile Char.isDigit = [] := by
      cases after with
      | nil => rfl
      | cons character after =>
        exact List.takeWhile_cons_of_neg (by simp [(hafter character rfl).1])
    rw [text, Option.elim, List.append_assoc, List.cons_append, ofText_point hwhole,
      List.takeWhile_append_of_pos hfraction, hnone, List.append_nil]

theorem IsWellFormed.ofText_text {numeral : Numeral} (h : numeral.IsWellFormed) :
    ofText numeral.text = numeral := by
  simpa using @ofText_append numeral h.isDigit [] (by simp)

/-- A numeral begins with a digit, or with a point in front of one. -/
theorem IsWellFormed.exists_cons {numeral : Numeral} (h : numeral.IsWellFormed) :
    ∃ first rest, numeral.text = first :: rest ∧
      (first.isDigit = true ∨ first = '.' ∧ rest.head?.any Char.isDigit = true) := by
  obtain ⟨whole, fraction⟩ := numeral
  cases whole with
  | cons first whole => exact ⟨first, _, rfl, .inl (h.isDigit first (List.mem_cons_self ..))⟩
  | nil =>
    cases fraction with
    | none => exact absurd rfl h.nonempty
    | some fraction =>
      cases fraction with
      | nil => exact absurd rfl h.nonempty
      | cons digit fraction =>
        exact ⟨'.', digit :: fraction, rfl, .inr ⟨rfl, h.isDigit digit (List.mem_cons_self ..)⟩⟩

end Numeral

/-! ## Numerals with an exponent -/

/-- A numeral and the power of ten that it is multiplied with. -/
structure ExponentNumeral where
  mantissa : Numeral
  /-- Whether the power is not negative. -/
  enlarges : Bool
  /-- The digits of the power. -/
  power : List Char
  deriving Repr, DecidableEq

namespace ExponentNumeral

def text (numeral : ExponentNumeral) : List Char :=
  numeral.mantissa.text ++ 'e' :: (if numeral.enlarges then '+' else '-') :: numeral.power

def exponent (numeral : ExponentNumeral) : ℤ :=
  if numeral.enlarges then Nat.ofDigitChars 10 numeral.power 0
  else -Nat.ofDigitChars 10 numeral.power 0

/-- The decimal that a numeral with an exponent spells. -/
def decimal (numeral : ExponentNumeral) : Decimal :=
  ⟨numeral.mantissa.decimal.coefficient, numeral.mantissa.decimal.exponent + numeral.exponent⟩

/-- One digit, perhaps a point with more digits behind it, and a power without zeros in front. -/
structure IsWellFormed (numeral : ExponentNumeral) : Prop where
  mantissa : numeral.mantissa.IsWellFormed
  leading : ∃ digit, numeral.mantissa.whole = [digit] ∧ digit ≠ '0'
  fraction : numeral.mantissa.fraction ≠ some []
  isDigit : ∀ character ∈ numeral.power, character.isDigit = true
  nonempty : numeral.power ≠ []
  noZero : numeral.power.head? ≠ some '0'

theorem IsWellFormed.ofText_text {numeral : ExponentNumeral} (h : numeral.IsWellFormed) :
    Numeral.ofText numeral.text = numeral.mantissa := by
  refine Numeral.ofText_append h.mantissa.isDigit fun character hmem ↦ ?_
  obtain rfl : 'e' = character := Option.some.inj hmem
  decide

/-- The mantissa ends where the text does not go on with a digit or a point. -/
theorem eq_of_text_eq {first second : ExponentNumeral} (hfirst : first.IsWellFormed)
    (hsecond : second.IsWellFormed) (h : first.text = second.text) : first = second := by
  have hmantissa : first.mantissa = second.mantissa := by
    rw [← hfirst.ofText_text, h, hsecond.ofText_text]
  obtain ⟨mantissa, enlarges, power⟩ := first
  obtain ⟨mantissa', enlarges', power'⟩ := second
  obtain rfl : mantissa = mantissa' := hmantissa
  obtain ⟨hsign, rfl⟩ := List.cons.inj (List.cons.inj (List.append_cancel_left h)).2
  cases enlarges with
  | true =>
    cases enlarges' with
    | true => rfl
    | false => cases hsign
  | false =>
    cases enlarges' with
    | true => cases hsign
    | false => rfl

/-- A numeral has no exponent. -/
theorem text_ne_text {numeral : ExponentNumeral} {other : Numeral} (h : numeral.IsWellFormed)
    (hother : other.IsWellFormed) : numeral.text ≠ other.text := by
  intro heq
  have hmantissa : numeral.mantissa = other := by
    rw [← h.ofText_text, heq, hother.ofText_text]
  have hlength := congrArg List.length heq
  rw [text, hmantissa, List.length_append, List.length_cons] at hlength
  omega

end ExponentNumeral

/-- A text stands for a decimal, with or without an exponent. -/
inductive Denotes : List Char → Decimal → Prop
  | plain {numeral : Numeral} (wellFormed : numeral.IsWellFormed) :
      Denotes numeral.text numeral.decimal
  | exponent {numeral : ExponentNumeral} (wellFormed : numeral.IsWellFormed) :
      Denotes numeral.text numeral.decimal

namespace Denotes

variable {text text' : List Char} {decimal decimal' : Decimal}

/-- A text stands for one decimal at most. -/
theorem unique (h : Denotes text decimal) (h' : Denotes text' decimal') (htext : text = text') :
    decimal = decimal' := by
  cases h with
  | plain wellFormed =>
    cases h' with
    | plain wellFormed' => rw [← wellFormed.ofText_text, htext, wellFormed'.ofText_text]
    | exponent wellFormed' =>
      exact absurd htext.symm (ExponentNumeral.text_ne_text wellFormed' wellFormed)
  | exponent wellFormed =>
    cases h' with
    | plain wellFormed' => exact absurd htext (ExponentNumeral.text_ne_text wellFormed wellFormed')
    | exponent wellFormed' =>
      rw [ExponentNumeral.eq_of_text_eq wellFormed wellFormed' htext]

/-- No sign stands in front of such a text. -/
theorem head?_ne_minus (h : Denotes text decimal) : text.head? ≠ some '-' := by
  have hnumeral {numeral : Numeral} (wellFormed : numeral.IsWellFormed) (after : List Char) :
      (numeral.text ++ after).head? ≠ some '-' := by
    obtain ⟨first, rest, hfirst, begins⟩ := wellFormed.exists_cons
    rw [hfirst]
    intro hminus
    obtain rfl : first = '-' := Option.some.inj hminus
    rcases begins with hdigit | ⟨hpoint, -⟩
    · cases hdigit
    · cases hpoint
  cases h with
  | plain wellFormed => simpa using hnumeral wellFormed []
  | exponent wellFormed => exact hnumeral wellFormed.mantissa _

end Denotes

/-! ## The texts of decimals -/

namespace Decimal

theorem isDigit_digits (decimal : Decimal) :
    ∀ character ∈ decimal.digits, character.isDigit = true := by
  obtain ⟨zeros, hzeros⟩ := decimal.exists_zeros
  have hdigits := isDigit_toDigits decimal.coefficient
  rw [hzeros] at hdigits
  exact (List.forall_mem_append.1 hdigits).1

theorem head?_digits {decimal : Decimal} (h : decimal.coefficient ≠ 0) :
    decimal.digits.head? ≠ some '0' := by
  obtain ⟨zeros, hzeros⟩ := decimal.exists_zeros
  have hhead := head?_toDigits h
  rwa [hzeros, List.head?_append_of_ne_nil _ (digits_ne_nil h)] at hhead

/-- The same digits with the point in the same place, but for zeros, stand for the same number. -/
theorem number_of_digits {first second : Decimal} (zeros : Nat)
    (hdigits : first.coefficient = 10 ^ zeros * Nat.ofDigitChars 10 second.digits 0)
    (hpoint : zeros + first.exponent = second.point - second.digits.length) :
    first.number = second.number := by
  rw [second.number_eq_digits, ← hpoint, zpow_add₀ (by norm_num), zpow_natCast, number, hdigits]
  push_cast
  ring

/-! ## Decimals around a point -/

/-- The numeral with the digits of a decimal on either side of its point. -/
def positionalNumeral (decimal : Decimal) : Numeral :=
  if decimal.point ≤ 0 then
    ⟨['0'], some (List.replicate (-decimal.point).toNat '0' ++ decimal.digits)⟩
  else if decimal.digits.length ≤ decimal.point.toNat then
    ⟨decimal.digits ++ List.replicate (decimal.point.toNat - decimal.digits.length) '0', none⟩
  else ⟨decimal.digits.take decimal.point.toNat, some (decimal.digits.drop decimal.point.toNat)⟩

theorem text_positionalNumeral (decimal : Decimal) :
    (positionalNumeral decimal).text = Number.positional decimal := by
  unfold positionalNumeral Number.positional
  dsimp only
  split
  · rfl
  split
  · exact List.append_nil _
  · rfl

/-- The point keeps its place among the digits when zeros are added on either side. -/
theorem digits_positionalNumeral (decimal : Decimal) :
    ∃ before after, (positionalNumeral decimal).digits =
        List.replicate before '0' ++ (decimal.digits ++ List.replicate after '0') ∧
      after + (positionalNumeral decimal).decimal.exponent =
        decimal.point - decimal.digits.length := by
  unfold positionalNumeral Numeral.decimal Numeral.digits
  split
  · refine ⟨(-decimal.point).toNat + 1, 0, ?_, ?_⟩
    · rw [Option.getD_some, List.replicate_zero, List.append_nil, List.replicate_succ]
      rfl
    · dsimp only
      rw [Option.getD_some, List.length_append, List.length_replicate]
      omega
  split
  · refine ⟨0, decimal.point.toNat - decimal.digits.length, List.append_nil _, ?_⟩
    dsimp only
    rw [Option.getD_none, List.length_nil]
    omega
  · refine ⟨0, 0, ?_, ?_⟩
    · rw [Option.getD_some, List.take_append_drop, List.replicate_zero, List.append_nil]
      rfl
    · dsimp only
      rw [Option.getD_some, List.length_drop]
      omega

theorem isWellFormed_positionalNumeral {decimal : Decimal} (h : decimal.coefficient ≠ 0) :
    (positionalNumeral decimal).IsWellFormed := by
  have hzeros (count : Nat) : ∀ character ∈ List.replicate count '0', character.isDigit = true := by
    intro character hmem
    rw [List.eq_of_mem_replicate hmem]
    rfl
  obtain ⟨before, after, hdigits, -⟩ := digits_positionalNumeral decimal
  constructor
  · rw [hdigits]
    exact List.forall_mem_append.2
      ⟨hzeros before, List.forall_mem_append.2 ⟨decimal.isDigit_digits, hzeros after⟩⟩
  · simp [hdigits, digits_ne_nil h]

theorem number_positionalNumeral (decimal : Decimal) :
    (positionalNumeral decimal).decimal.number = decimal.number := by
  obtain ⟨before, after, hdigits, hpoint⟩ := digits_positionalNumeral decimal
  refine number_of_digits after ?_ hpoint
  rw [Numeral.decimal, hdigits, Nat.ofDigitChars_append, Nat.ofDigitChars_replicate_zero,
    Nat.ofDigitChars_append, Nat.ofDigitChars_replicate_zero, Nat.mul_zero]

/-! ## Decimals with an exponent -/

/-- The numeral with the first digit of a decimal in front of the point. -/
def exponentNumeral (decimal : Decimal) : ExponentNumeral where
  mantissa := ⟨decimal.digits.take 1,
    if (decimal.digits.drop 1).isEmpty then none else some (decimal.digits.drop 1)⟩
  enlarges := 1 ≤ decimal.point
  power := Nat.toDigits 10 (decimal.point - 1).natAbs

theorem fraction_exponentNumeral (decimal : Decimal) :
    (exponentNumeral decimal).mantissa.fraction.getD [] = decimal.digits.drop 1 := by
  unfold exponentNumeral
  cases decimal.digits.drop 1 <;> rfl

theorem digits_exponentNumeral (decimal : Decimal) :
    (exponentNumeral decimal).mantissa.digits = decimal.digits := by
  rw [Numeral.digits, fraction_exponentNumeral]
  exact List.take_append_drop 1 _

theorem text_exponentNumeral (decimal : Decimal) :
    (exponentNumeral decimal).text = Number.scientific decimal := by
  have hsign : (if decimal.point - 1 < 0 then '-' else '+') =
      if decide (1 ≤ decimal.point) then '+' else '-' := by
    by_cases hlarge : 1 ≤ decimal.point
    · rw [if_neg (by omega), if_pos (decide_eq_true hlarge)]
    · rw [if_pos (by omega), if_neg (by simp [hlarge])]
  unfold Number.scientific ExponentNumeral.text exponentNumeral Numeral.text
  dsimp only
  rw [hsign]
  cases decimal.digits.drop 1 <;> rfl

theorem isWellFormed_exponentNumeral {decimal : Decimal} (h : decimal.coefficient ≠ 0)
    (hpoint : decimal.point ≠ 1) : (exponentNumeral decimal).IsWellFormed where
  mantissa := by
    constructor
    · rw [digits_exponentNumeral]
      exact decimal.isDigit_digits
    · rw [digits_exponentNumeral]
      exact digits_ne_nil h
  leading := by
    obtain ⟨digit, digits, hdigits⟩ := List.exists_cons_of_ne_nil (digits_ne_nil h)
    refine ⟨digit, congrArg (List.take 1) hdigits, fun hzero ↦ head?_digits h ?_⟩
    rw [hdigits, hzero]
    rfl
  fraction := by
    unfold exponentNumeral
    cases decimal.digits.drop 1 <;> simp
  isDigit := isDigit_toDigits _
  nonempty := Nat.toDigits_ne_nil
  noZero := head?_toDigits (by omega)

theorem number_exponentNumeral {decimal : Decimal} (h : decimal.coefficient ≠ 0) :
    (exponentNumeral decimal).decimal.number = decimal.number := by
  have hexponent : (exponentNumeral decimal).exponent = decimal.point - 1 := by
    unfold ExponentNumeral.exponent exponentNumeral
    dsimp only
    rw [Nat.ofDigitChars_ten_toDigits]
    by_cases hlarge : 1 ≤ decimal.point
    · rw [if_pos (decide_eq_true hlarge)]
      omega
    · rw [if_neg (by simp [hlarge])]
      omega
  have hsome := List.length_pos_iff.2 (digits_ne_nil h)
  refine number_of_digits 0 ?_ ?_
  · rw [ExponentNumeral.decimal, Numeral.decimal, digits_exponentNumeral, Nat.pow_zero, Nat.one_mul]
  · rw [ExponentNumeral.decimal, Numeral.decimal, hexponent, fraction_exponentNumeral,
      List.length_drop]
    dsimp only
    omega

end Decimal

end Slang
