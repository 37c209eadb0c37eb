import Slang.Proofs.Rounding

/-!
# Shortest decimals

Larger numbers are rounded to larger doubles, so whatever lies between a double and a decimal that
reads back reads back, too. Hence if any decimal with few digits does, one of the two neighbours of
the double with that many digits does, and the first number of digits for which one is found is the
least. It is seventeen at most, as two doubles with another one between them are further apart than
the seventeenth digit.
-/

namespace Slang

namespace Binary64

/-- The number that a finite magnitude stands for. -/
def value (magnitude : Nat) : ℚ :=
  scaled magnitude / twoPow 1074

theorem distance_value (magnitude : Nat) (number : ℚ) :
    distance magnitude number = |value magnitude - number| := rfl

theorem value_strictMono : StrictMono value := by
  intro first second hlt
  have hunit : (0 : ℚ) < twoPow 1074 := Nat.cast_pos.2 (twoPow_pos 1074)
  exact div_lt_div_of_pos_right (Nat.cast_lt.2 (scaled_strictMono hlt)) hunit

theorem isNearest_value {magnitude : Nat} (h : magnitude ≤ infinity) :
    IsNearest magnitude (value magnitude) := by
  refine ⟨h, fun other _ hne ↦ .inl ?_⟩
  rw [distance_value, distance_value, sub_self, abs_zero, abs_pos, sub_ne_zero]
  exact value_strictMono.injective.ne hne

section Halfway

variable {lower upper number : ℚ} (h : lower < upper)
include h

theorem abs_upper_le_iff : |upper - number| ≤ |lower - number| ↔ lower + upper ≤ 2 * number := by
  rw [← sq_le_sq]
  constructor <;> intro hle <;> nlinarith

theorem abs_lower_le_iff : |lower - number| ≤ |upper - number| ↔ 2 * number ≤ lower + upper := by
  rw [← sq_le_sq]
  constructor <;> intro hle <;> nlinarith

end Halfway

theorem IsNearest.distance_le {magnitude other : Nat} {number : ℚ} (h : IsNearest magnitude number)
    (hother : other ≤ infinity) : distance magnitude number ≤ distance other number := by
  by_cases heq : other = magnitude
  · rw [heq]
  · exact (h.nearer other hother heq).elim le_of_lt fun hsame ↦ hsame.1.le

/-- A larger number is rounded to a larger magnitude. -/
theorem IsNearest.mono {first second : Nat} {less more : ℚ} (hfirst : IsNearest first less)
    (hsecond : IsNearest second more) (h : less ≤ more) : first ≤ second := by
  by_contra hgreater
  have hlt : second < first := not_le.1 hgreater
  have hnear := hfirst.distance_le hsecond.le_infinity
  have hnear' := hsecond.distance_le hfirst.le_infinity
  have hupper := (abs_upper_le_iff (value_strictMono hlt)).1 hnear
  have hlower := (abs_lower_le_iff (value_strictMono hlt)).1 hnear'
  -- Both numbers are halfway between the two magnitudes, so these are even.
  obtain rfl : less = more := by linarith
  have heven := (hfirst.nearer second hsecond.le_infinity hlt.ne).resolve_left hnear'.not_gt
  have heven' := (hsecond.nearer first hfirst.le_infinity hlt.ne').resolve_left hnear.not_gt
  have hbetween : second + 1 < first := by omega
  have hcloser := (abs_upper_le_iff (value_strictMono hbetween)).1
    (hfirst.distance_le (hbetween.le.trans hfirst.le_infinity))
  have hnext := value_strictMono (Nat.lt_succ_self second)
  linarith

theorem IsNearest.unique {first second : Nat} {number : ℚ} (hfirst : IsNearest first number)
    (hsecond : IsNearest second number) : first = second :=
  le_antisymm (hfirst.mono hsecond le_rfl) (hsecond.mono hfirst le_rfl)

end Binary64

namespace Decimal

open Binary64

/-- The number that a decimal stands for. -/
def number (decimal : Decimal) : ℚ :=
  decimal.coefficient * 10 ^ decimal.exponent

theorem cast_tenPow (exponent : Nat) : ((tenPow exponent : ℕ) : ℚ) = 10 ^ exponent :=
  Nat.cast_pow 10 exponent

theorem number_eq (decimal : Decimal) :
    decimal.number = (decimal.coefficient * tenPow decimal.exponent.toNat : ℕ) /
      (tenPow (-decimal.exponent).toNat : ℕ) := by
  rw [number, Nat.cast_mul, cast_tenPow, cast_tenPow, mul_div_assoc, ← zpow_natCast, ← zpow_natCast,
    ← zpow_sub₀ (by norm_num), Int.toNat_sub_toNat_neg]

theorem isNearest_nearest (decimal : Decimal) : IsNearest decimal.nearest decimal.number := by
  rw [number_eq]
  exact Binary64.isNearest_nearest _ (Nat.pow_pos (by decide))

theorem readsAs_iff {decimal : Decimal} {magnitude : Nat} :
    decimal.ReadsAs magnitude ↔ IsNearest magnitude decimal.number := by
  constructor
  · rintro rfl
    exact decimal.isNearest_nearest
  · exact decimal.isNearest_nearest.unique

theorem mul_five_pow (units places : Nat) :
    ((units * Nat.pow 5 places : ℕ) : ℚ) * 10 ^ (-(places : ℤ)) = units / (twoPow places : ℕ) := by
  have hfive : ((Nat.pow 5 places : ℕ) : ℚ) = 5 ^ places := Nat.cast_pow 5 places
  have htwo : ((twoPow places : ℕ) : ℚ) = 2 ^ places := Nat.cast_pow 2 places
  rw [Nat.cast_mul, hfive, htwo, zpow_neg, zpow_natCast, show (10 : ℚ) = 2 * 5 by norm_num, mul_pow]
  field_simp

/-- Every magnitude is a decimal. -/
theorem number_exact (magnitude : Nat) : (exact magnitude).number = value magnitude := by
  have hplaces : (-1074 : ℤ) = -(1074 : ℕ) := rfl
  unfold number value exact
  generalize 1074 = places at *
  dsimp only
  rw [hplaces, mul_five_pow]

theorem readsAs_exact {magnitude : Nat} (h : magnitude ≤ infinity) :
    (exact magnitude).ReadsAs magnitude := by
  rw [readsAs_iff, number_exact]
  exact isNearest_value h

/-- The number of digits of a magnitude in fine units. -/
def fineDigits (magnitude : Nat) : Nat :=
  digitCount (fineUnits magnitude)

theorem shortest_eq (magnitude : Nat) :
    shortest magnitude = ((List.range' 1 17).findSome? fun count ↦
      droppingDigits? magnitude (fineUnits magnitude)
        (fineDigits magnitude - count)).getD (exact magnitude) := rfl

/-- The shortest decimal reads back, whether digits could be dropped or not. -/
theorem readsAs_shortest {magnitude : Nat} (h : magnitude ≤ infinity) :
    (shortest magnitude).ReadsAs magnitude := by
  rw [shortest_eq]
  cases hfound : (List.range' 1 17).findSome? fun count ↦
      droppingDigits? magnitude (fineUnits magnitude) (fineDigits magnitude - count) with
  | none => exact readsAs_exact h
  | some decimal =>
    obtain ⟨count, -, hdecimal⟩ := List.exists_of_findSome?_eq_some hfound
    exact readsAs_of_droppingDigits? hdecimal

/-! ## Digits -/

/-- The digits of a decimal are those of its coefficient but for the zeros at the end. -/
theorem exists_zeros (decimal : Decimal) :
    ∃ zeros, Nat.toDigits 10 decimal.coefficient =
      decimal.digits ++ List.replicate zeros '0' := by
  have hsplit := List.rdropWhile_append_rtakeWhile (p := (· == '0'))
    (l := Nat.toDigits 10 decimal.coefficient)
  have hzeros : ∀ digit ∈ (Nat.toDigits 10 decimal.coefficient).rtakeWhile (· == '0'),
      digit = '0' := fun digit hmem ↦ by simpa using List.mem_rtakeWhile_imp hmem
  rw [List.eq_replicate_of_mem hzeros] at hsplit
  exact ⟨_, hsplit.symm⟩

theorem coefficient_eq_digits (decimal : Decimal) :
    ∃ zeros, decimal.coefficient = 10 ^ zeros * Nat.ofDigitChars 10 decimal.digits 0 ∧
      (Nat.toDigits 10 decimal.coefficient).length = decimal.digits.length + zeros := by
  obtain ⟨zeros, hzeros⟩ := decimal.exists_zeros
  refine ⟨zeros, ?_, by rw [hzeros, List.length_append, List.length_replicate]⟩
  rw [← Nat.ofDigitChars_replicate_zero, ← Nat.ofDigitChars_append, ← hzeros,
    Nat.ofDigitChars_ten_toDigits]

theorem coefficient_lt (decimal : Decimal) :
    decimal.coefficient < 10 ^ (Nat.toDigits 10 decimal.coefficient).length :=
  (Nat.length_toDigits_le_iff (by decide) Nat.length_toDigits_pos).1 le_rfl

theorem le_coefficient {decimal : Decimal} (h : decimal.coefficient ≠ 0) :
    10 ^ ((Nat.toDigits 10 decimal.coefficient).length - 1) ≤ decimal.coefficient := by
  rcases Nat.eq_zero_or_pos ((Nat.toDigits 10 decimal.coefficient).length - 1) with hone | hmore
  · rw [hone]
    exact Nat.pos_of_ne_zero h
  · by_contra hlt
    have hle := (Nat.length_toDigits_le_iff (by decide) hmore).2 (not_le.1 hlt)
    omega

/-- A decimal lies between the powers of ten at its point. -/
theorem number_bounds {decimal : Decimal} (h : decimal.coefficient ≠ 0) :
    (10 : ℚ) ^ (decimal.point - 1) ≤ decimal.number ∧ decimal.number < 10 ^ decimal.point := by
  have hsome : 0 < (Nat.toDigits 10 decimal.coefficient).length := Nat.length_toDigits_pos
  have hpower : (0 : ℚ) < 10 ^ decimal.exponent := by positivity
  have hshift (count : Nat) : (10 : ℚ) ^ ((count : ℤ) + decimal.exponent) =
      (10 ^ count : ℕ) * 10 ^ decimal.exponent := by
    rw [zpow_add₀ (by norm_num), zpow_natCast, Nat.cast_pow, Nat.cast_ofNat]
  have hless : decimal.point - 1 =
      ((Nat.toDigits 10 decimal.coefficient).length - 1 : ℕ) + decimal.exponent := by
    rw [point, Nat.cast_sub hsome]
    omega
  rw [hless, hshift, point, hshift, number]
  constructor
  · exact mul_le_mul_of_nonneg_right (Nat.cast_le.2 (le_coefficient h)) hpower.le
  · exact mul_lt_mul_of_pos_right (Nat.cast_lt.2 decimal.coefficient_lt) hpower

theorem number_pos {decimal : Decimal} (h : decimal.coefficient ≠ 0) : 0 < decimal.number :=
  (zpow_pos (by norm_num) _).trans_le (number_bounds h).1

/-- A decimal is spelled by its digits and the place of its point. -/
theorem number_eq_digits (decimal : Decimal) :
    decimal.number = Nat.ofDigitChars 10 decimal.digits 0 *
      10 ^ (decimal.point - decimal.digits.length) := by
  obtain ⟨zeros, hcoefficient, hlength⟩ := decimal.coefficient_eq_digits
  have hpoint : decimal.point - decimal.digits.length = zeros + decimal.exponent := by
    rw [point, hlength]
    omega
  rw [hpoint, zpow_add₀ (by norm_num), zpow_natCast, number]
  nth_rewrite 1 [hcoefficient]
  push_cast
  ring

theorem coefficient_ne_zero {decimal : Decimal} {magnitude : Nat} (hpos : 0 < magnitude)
    (hreads : decimal.ReadsAs magnitude) : decimal.coefficient ≠ 0 := by
  intro hzero
  have hnumber : decimal.number = value 0 := by
    rw [number, hzero, value, scaled_of_lt (by decide), Nat.cast_zero, zero_mul, zero_div]
  have hnearest := readsAs_iff.1 hreads
  rw [hnumber] at hnearest
  exact hpos.ne ((isNearest_value (Nat.zero_le _)).unique hnearest)

theorem digits_ne_nil {decimal : Decimal} (h : decimal.coefficient ≠ 0) : decimal.digits ≠ [] := by
  intro hnil
  obtain ⟨zeros, hcoefficient, -⟩ := decimal.coefficient_eq_digits
  rw [hnil, Nat.ofDigitChars_nil, Nat.mul_zero] at hcoefficient
  exact h hcoefficient

theorem length_digits_le_toDigits (decimal : Decimal) :
    decimal.digits.length ≤ (Nat.toDigits 10 decimal.coefficient).length :=
  (List.rdropWhile_prefix ..).length_le

theorem toDigits_mul_ten {coefficient : Nat} (h : 0 < coefficient) :
    Nat.toDigits 10 (coefficient * 10) = Nat.toDigits 10 coefficient ++ ['0'] := by
  rw [Nat.mul_comm, ← Nat.toDigits_zero 10,
    Nat.toDigits_append_toDigits (by decide) h (by decide), Nat.add_zero]

/-- A power of ten has a single digit. -/
theorem length_digits_le {decimal : Decimal} {count : Nat} (hcount : 0 < count)
    (h : decimal.coefficient ≤ 10 ^ count) : decimal.digits.length ≤ count := by
  rcases h.lt_or_eq with hlt | heq
  · exact decimal.length_digits_le_toDigits.trans
      ((Nat.length_toDigits_le_iff (by decide) hcount).2 hlt)
  · obtain ⟨fewer, rfl⟩ : ∃ fewer, count = fewer + 1 := ⟨count - 1, by omega⟩
    have hdigits : decimal.digits = (Nat.toDigits 10 (10 ^ fewer)).rdropWhile (· == '0') := by
      change List.rdropWhile _ _ = _
      rw [heq, Nat.pow_succ, toDigits_mul_ten (Nat.pow_pos (by decide)),
        List.rdropWhile_concat_pos _ _ _ rfl]
    rw [hdigits]
    refine (List.rdropWhile_prefix ..).length_le.trans ?_
    exact (Nat.length_toDigits_le_iff (by decide) hcount).2
      (Nat.pow_lt_pow_right (by decide) (Nat.lt_succ_self fewer))

theorem digits_shift {coefficient : Nat} (h : 0 < coefficient) (places : Nat)
    (exponent exponent' : ℤ) :
    (Decimal.mk (coefficient * 10 ^ places) exponent).digits =
      (Decimal.mk coefficient exponent').digits := by
  induction places with
  | zero => exact congrArg (fun kept ↦ (Decimal.mk kept exponent').digits) (Nat.mul_one _)
  | succ places ih =>
    rw [← ih]
    change List.rdropWhile _ _ = List.rdropWhile _ _
    dsimp only
    rw [Nat.pow_succ, ← Nat.mul_assoc,
      toDigits_mul_ten (Nat.mul_pos h (Nat.pow_pos (by decide))),
      List.rdropWhile_concat_pos _ _ _ rfl]

/-- Decimals that stand for the same number have the same digits. -/
theorem digits_eq_of_number_eq {first second : Decimal} (hpos : 0 < first.number)
    (h : first.number = second.number) : first.digits = second.digits := by
  wlog hle : first.exponent ≤ second.exponent with hother
  · exact (hother (h ▸ hpos) h.symm (le_of_not_ge hle)).symm
  obtain ⟨places, hplaces⟩ := Int.le.dest hle
  obtain ⟨coefficient, exponent⟩ := first
  obtain ⟨coefficient', exponent'⟩ := second
  have hpower : (10 : ℚ) ^ exponent ≠ 0 := by positivity
  obtain rfl : coefficient = coefficient' * 10 ^ places := by
    rw [number, number, ← hplaces, zpow_add₀ (by norm_num), zpow_natCast, mul_comm (10 ^ exponent),
      ← mul_assoc, mul_left_inj' hpower] at h
    exact_mod_cast h
  refine digits_shift (Nat.pos_of_ne_zero ?_) ..
  rintro rfl
  simp [number] at hpos

/-! ## The neighbours of a magnitude -/

/-- The largest decimal that is not above a magnitude, when the last digits of its fine units are
dropped. -/
def below (magnitude dropped : Nat) : Decimal :=
  ⟨fineUnits magnitude / tenPow dropped, (dropped : ℤ) - finestPlaces⟩

/-- The next decimal with the same digits dropped. -/
def above (magnitude dropped : Nat) : Decimal :=
  ⟨fineUnits magnitude / tenPow dropped + 1, (dropped : ℤ) - finestPlaces⟩

/-- Dropping digits gives one of the two neighbours if one of them reads back. -/
theorem isSome_droppingDigits? {magnitude dropped : Nat}
    (h : (below magnitude dropped).ReadsAs magnitude ∨
      (above magnitude dropped).ReadsAs magnitude) :
    (droppingDigits? magnitude (fineUnits magnitude) dropped).isSome = true := by
  unfold below above at h
  simp only [droppingDigits?]
  split
  · split <;> rfl
  · rename_i hbelow
    rw [if_pos (h.resolve_left hbelow)]
    rfl

theorem neighbour_of_droppingDigits? {magnitude dropped : Nat} {decimal : Decimal}
    (h : droppingDigits? magnitude (fineUnits magnitude) dropped = some decimal) :
    decimal = below magnitude dropped ∨ decimal = above magnitude dropped := by
  unfold below above
  simp only [droppingDigits?] at h
  split at h
  · split at h
    · exact .inr (Option.some.inj h).symm
    · exact .inl (Option.some.inj h).symm
  · split at h
    · exact .inr (Option.some.inj h).symm
    · cases h

theorem number_grid (coefficient dropped : Nat) :
    (Decimal.mk coefficient ((dropped : ℤ) - finestPlaces)).number =
      (coefficient * tenPow dropped : ℕ) / (tenPow finestPlaces : ℕ) := by
  rw [number, zpow_sub₀ (by norm_num), zpow_natCast, zpow_natCast, Nat.cast_mul, cast_tenPow,
    cast_tenPow, mul_div_assoc]

theorem tenPow_pos (exponent : Nat) : 0 < tenPow exponent :=
  Nat.pow_pos (by decide)

section Neighbours

variable (magnitude dropped : Nat)

theorem number_below_le : (below magnitude dropped).number ≤ value magnitude := by
  have hunits : fineUnits magnitude / tenPow dropped * tenPow dropped * twoPow 1074 ≤
      scaled magnitude * tenPow finestPlaces :=
    calc
      _ ≤ fineUnits magnitude * twoPow 1074 := Nat.mul_le_mul_right _ (Nat.div_mul_le_self _ _)
      _ ≤ _ := Nat.div_mul_le_self _ _
  rw [below, number_grid, value, div_le_div_iff₀ (Nat.cast_pos.2 (tenPow_pos _))
    (Nat.cast_pos.2 (twoPow_pos _))]
  exact_mod_cast hunits

theorem lt_number_above : value magnitude < (above magnitude dropped).number := by
  have hfine : fineUnits magnitude < (fineUnits magnitude / tenPow dropped + 1) * tenPow dropped :=
    (Nat.div_lt_iff_lt_mul (tenPow_pos dropped)).1 (Nat.lt_succ_self _)
  have hunits : scaled magnitude * tenPow finestPlaces <
      (fineUnits magnitude / tenPow dropped + 1) * tenPow dropped * twoPow 1074 :=
    calc
      _ < (fineUnits magnitude + 1) * twoPow 1074 :=
        (Nat.div_lt_iff_lt_mul (twoPow_pos 1074)).1 (Nat.lt_succ_self _)
      _ ≤ _ := Nat.mul_le_mul_right _ hfine
  rw [above, number_grid, value, div_lt_div_iff₀ (Nat.cast_pos.2 (twoPow_pos _))
    (Nat.cast_pos.2 (tenPow_pos _))]
  exact_mod_cast hunits

end Neighbours

section Between

variable {magnitude : Nat} (h : magnitude ≤ infinity) {decimal other : Decimal}
  (hreads : decimal.ReadsAs magnitude)
include h hreads

/-- What lies between a magnitude and a decimal that reads back reads back, too. -/
theorem readsAs_of_le (hle : decimal.number ≤ other.number)
    (hvalue : other.number ≤ value magnitude) : other.ReadsAs magnitude :=
  le_antisymm (other.isNearest_nearest.mono (isNearest_value h) hvalue)
    ((readsAs_iff.1 hreads).mono other.isNearest_nearest hle)

theorem readsAs_of_ge (hle : other.number ≤ decimal.number)
    (hvalue : value magnitude ≤ other.number) : other.ReadsAs magnitude :=
  le_antisymm (other.isNearest_nearest.mono (readsAs_iff.1 hreads) hle)
    ((isNearest_value h).mono other.isNearest_nearest hvalue)

end Between

/-- A number of whole units is not strictly between the two neighbours. -/
theorem grid_cases (magnitude dropped count : Nat) :
    let decimal := Decimal.mk count ((dropped : ℤ) - finestPlaces)
    decimal.number ≤ (below magnitude dropped).number ∨
      (above magnitude dropped).number ≤ decimal.number := by
  have hpower : (0 : ℚ) ≤ 10 ^ ((dropped : ℤ) - finestPlaces) := by positivity
  unfold number below above
  dsimp only
  rcases Nat.lt_or_ge (fineUnits magnitude / tenPow dropped) count with hmore | hfewer
  · exact .inr (mul_le_mul_of_nonneg_right (Nat.cast_le.2 hmore) hpower)
  · exact .inl (mul_le_mul_of_nonneg_right (Nat.cast_le.2 hfewer) hpower)

/-! ## Counting digits -/

theorem twoPow_le_twoPow {least most : Nat} (h : least ≤ most) : twoPow least ≤ twoPow most :=
  Nat.pow_le_pow_right Nat.two_pos h

/-- The estimate of the number of digits is right for binary lengths up to those of the largest
doubles in fine units. -/
theorem estimate_bounds : ∀ estimate < 651,
    tenPow estimate ≤ twoPow ((estimate * 100000 + 30102) / 30103) ∧
      twoPow (((estimate + 1) * 100000 - 1) / 30103 + 1) ≤ tenPow (estimate + 2) := by
  decide +kernel

theorem digitCount_bounds {number : Nat} (hpos : number ≠ 0) (hlength : number.log2 < 2160) :
    tenPow (digitCount number - 1) ≤ number ∧ number < tenPow (digitCount number) := by
  have hestimate : number.log2 * 30103 / 100000 < 651 := by omega
  obtain ⟨hlower, hupper⟩ := estimate_bounds _ hestimate
  have hleast : tenPow (number.log2 * 30103 / 100000) ≤ number :=
    calc
      _ ≤ twoPow ((number.log2 * 30103 / 100000 * 100000 + 30102) / 30103) := hlower
      _ ≤ twoPow number.log2 := twoPow_le_twoPow (by omega)
      _ ≤ number := Nat.log2_self_le hpos
  have hmost : number < tenPow (number.log2 * 30103 / 100000 + 2) :=
    calc
      number < twoPow (number.log2 + 1) := Nat.lt_log2_self
      _ ≤ twoPow (((number.log2 * 30103 / 100000 + 1) * 100000 - 1) / 30103 + 1) :=
        twoPow_le_twoPow (by omega)
      _ ≤ _ := hupper
  unfold digitCount
  dsimp only
  split
  · rename_i hmore
    exact ⟨hmore, hmost⟩
  · rename_i hfewer
    exact ⟨hleast, not_le.1 hfewer⟩

theorem fineUnits_mono {first second : Nat} (h : first ≤ second) :
    fineUnits first ≤ fineUnits second :=
  Nat.div_le_div_right (Nat.mul_le_mul_right _ (scaled_strictMono.monotone h))

section FineDigits

variable {magnitude : Nat} (hpos : 0 < magnitude) (h : magnitude ≤ infinity)
include hpos h

theorem fineDigits_bounds :
    tenPow (fineDigits magnitude - 1) ≤ fineUnits magnitude ∧
      fineUnits magnitude < tenPow (fineDigits magnitude) ∧ 17 < fineDigits magnitude := by
  have hleast : tenPow 17 ≤ fineUnits 1 := by decide +kernel
  have hmost : (fineUnits infinity).log2 < 2160 := by decide +kernel
  have hmany : tenPow 17 ≤ fineUnits magnitude := hleast.trans (fineUnits_mono hpos)
  have hne : fineUnits magnitude ≠ 0 := (Nat.lt_of_lt_of_le (tenPow_pos 17) hmany).ne'
  have hfew : fineUnits magnitude ≤ fineUnits infinity := fineUnits_mono h
  have hlength : (fineUnits magnitude).log2 ≤ (fineUnits infinity).log2 :=
    (Nat.le_log2 (Nat.ne_of_gt (Nat.lt_of_lt_of_le (Nat.pos_of_ne_zero hne) hfew))).2
      ((Nat.log2_self_le hne).trans hfew)
  obtain ⟨hlower, hupper⟩ := digitCount_bounds hne (hlength.trans_lt hmost)
  refine ⟨hlower, hupper, ?_⟩
  by_contra hshort
  have hpower : tenPow (fineDigits magnitude) ≤ tenPow 17 :=
    Nat.pow_le_pow_right (by decide) (not_lt.1 hshort)
  exact absurd (hupper.trans_le (hpower.trans hmany)) (lt_irrefl _)

/-- The lower neighbour begins with the same digit as the magnitude. -/
theorem le_number_below {dropped : Nat} (hdropped : dropped < fineDigits magnitude) :
    (10 : ℚ) ^ ((fineDigits magnitude : ℤ) - 1 - finestPlaces) ≤
      (below magnitude dropped).number := by
  obtain ⟨hlower, -, -⟩ := fineDigits_bounds hpos h
  have hkept :
      tenPow (fineDigits magnitude - 1 - dropped) ≤ fineUnits magnitude / tenPow dropped := by
    rw [Nat.le_div_iff_mul_le (tenPow_pos dropped)]
    refine le_trans (le_of_eq ?_) hlower
    change 10 ^ _ * 10 ^ _ = 10 ^ _
    rw [← pow_add]
    congr 1
    omega
  have hsplit : (fineDigits magnitude : ℤ) - 1 - finestPlaces =
      (fineDigits magnitude - 1 - dropped : ℕ) + ((dropped : ℤ) - finestPlaces) := by omega
  rw [hsplit, zpow_add₀ (by norm_num), zpow_natCast, ← cast_tenPow]
  exact mul_le_mul_of_nonneg_right (Nat.cast_le.2 hkept) (by positivity)

end FineDigits

/-- Two magnitudes with one between them differ in the first seventeen digits. -/
theorem scaled_gap (magnitude : Nat) :
    2 * scaled (magnitude + 1) + 10 ^ 16 * scaled magnitude < 10 ^ 16 * scaled (magnitude + 2) := by
  obtain ⟨shift, rounded, rfl, hupper, hlower⟩ := exists_significand magnitude
  have hnext : scaled (shift * 2 ^ 52 + (rounded + 1)) = (rounded + 1) * 2 ^ shift :=
    scaled_add hupper fun hshift ↦ Nat.le_succ_of_le (hlower hshift)
  obtain ⟨third, hthird, hbound⟩ : ∃ third,
      scaled (shift * 2 ^ 52 + (rounded + 2)) = third * 2 ^ shift ∧
        2 * (rounded + 1) + 10 ^ 16 * rounded < 10 ^ 16 * third := by
    by_cases hmore : rounded + 2 ≤ 2 ^ 53
    · refine ⟨rounded + 2, ?_, by omega⟩
      exact scaled_add hmore fun hshift ↦ Nat.le_add_right_of_le (hlower hshift)
    · -- The magnitude in the middle is a power of two.
      have hmagnitude : shift * 2 ^ 52 + (rounded + 2) = (shift + 1) * 2 ^ 52 + (2 ^ 52 + 1) := by
        omega
      refine ⟨2 ^ 53 + 2, ?_, by omega⟩
      rw [hmagnitude, scaled_add (by decide) (by omega), Nat.pow_succ]
      omega
  rw [Nat.add_assoc, Nat.add_assoc, hnext, hthird, scaled_add hupper.le hlower]
  calc
    _ = (2 * (rounded + 1) + 10 ^ 16 * rounded) * 2 ^ shift := by ring
    _ < 10 ^ 16 * third * 2 ^ shift := Nat.mul_lt_mul_of_pos_right hbound (Nat.two_pow_pos shift)
    _ = _ := Nat.mul_assoc ..

theorem value_gap (magnitude : Nat) :
    2 * value (magnitude + 1) < 10 ^ 16 * (value (magnitude + 2) - value magnitude) := by
  have hunit : (0 : ℚ) < twoPow 1074 := Nat.cast_pos.2 (twoPow_pos 1074)
  have hscaled : (2 * scaled (magnitude + 1) : ℚ) + 10 ^ 16 * scaled magnitude <
      10 ^ 16 * scaled (magnitude + 2) := by
    exact_mod_cast scaled_gap magnitude
  unfold value
  rw [← sub_div, mul_div_assoc', mul_div_assoc', div_lt_div_iff_of_pos_right hunit]
  linarith

/-- The first number of digits that gives a decimal is tried first. -/
theorem exists_findSome?_range' {f : Nat → Option Decimal} {count limit : Nat} (hcount : 0 < count)
    (hlimit : count ≤ limit) (h : (f count).isSome = true) :
    ∃ fewer decimal, 0 < fewer ∧ fewer ≤ count ∧ f fewer = some decimal ∧
      (List.range' 1 limit).findSome? f = some decimal := by
  have hmem : count ∈ List.range' 1 limit := List.mem_range'_1.2 ⟨hcount, by omega⟩
  obtain ⟨decimal, hfound⟩ := Option.isSome_iff_exists.1
    (List.findSome?_isSome_iff.2 ⟨count, hmem, h⟩)
  obtain ⟨before, fewer, after, hrange, hdecimal, hnone⟩ := List.findSome?_eq_some_iff.1 hfound
  have hpositive : 0 < fewer := (List.mem_range'_1.1 (hrange ▸ List.mem_append_cons_self)).1
  have hsorted : (before ++ fewer :: after).Pairwise (· < ·) := hrange ▸ List.pairwise_lt_range' 1
  refine ⟨fewer, decimal, hpositive, ?_, hdecimal, hfound⟩
  rw [hrange, List.mem_append, List.mem_cons] at hmem
  rcases hmem with hbefore | rfl | hafter
  · rw [hnone count hbefore] at h
    cases h
  · exact le_rfl
  · exact (List.rel_of_pairwise_cons (List.pairwise_append.1 hsorted).2.1 hafter).le

section Magnitude

variable {magnitude : Nat} (hpos : 0 < magnitude) (h : magnitude ≤ infinity)
include hpos h

/-- With as many digits as a decimal that reads back, one of the neighbours does. -/
theorem readsAs_neighbour {decimal : Decimal} (hreads : decimal.ReadsAs magnitude)
    (hfew : decimal.digits.length ≤ 17) :
    let dropped := fineDigits magnitude - decimal.digits.length
    (below magnitude dropped).ReadsAs magnitude ∨ (above magnitude dropped).ReadsAs magnitude := by
  intro dropped
  have hcoefficient := coefficient_ne_zero hpos hreads
  have hsome := List.length_pos_iff.2 (digits_ne_nil hcoefficient)
  obtain ⟨-, -, hmany⟩ := fineDigits_bounds hpos h
  have hbelow := number_below_le magnitude dropped
  have habove := lt_number_above magnitude dropped
  rcases le_or_gt ((dropped : ℤ) - finestPlaces) (decimal.point - decimal.digits.length) with
    hcoarse | hfine
  · -- The decimal is a multiple of the last digit that is kept.
    obtain ⟨more, hmore⟩ := Int.le.dest hcoarse
    have hgrid : decimal.number = (Decimal.mk (Nat.ofDigitChars 10 decimal.digits 0 * 10 ^ more)
        ((dropped : ℤ) - finestPlaces)).number := by
      rw [number_eq_digits, ← hmore, zpow_add₀ (by norm_num), zpow_natCast, number]
      push_cast
      ring
    rcases grid_cases magnitude dropped (Nat.ofDigitChars 10 decimal.digits 0 * 10 ^ more) with
      hle | hge
    · rw [← hgrid] at hle
      exact .inl (readsAs_of_le h hreads hle hbelow)
    · rw [← hgrid] at hge
      exact .inr (readsAs_of_ge h hreads hge habove.le)
  · -- The decimal is smaller than the power of ten that the magnitude begins with.
    refine .inl (readsAs_of_le h hreads ?_ hbelow)
    calc
      decimal.number ≤ 10 ^ decimal.point := (number_bounds hcoefficient).2.le
      _ ≤ 10 ^ ((fineDigits magnitude : ℤ) - 1 - finestPlaces) :=
        zpow_le_zpow_right₀ (by norm_num) (by omega)
      _ ≤ (below magnitude dropped).number := le_number_below hpos h (by omega)

/-- One of the neighbours with seventeen digits reads back. -/
theorem readsAs_seventeen :
    let dropped := fineDigits magnitude - 17
    (below magnitude dropped).ReadsAs magnitude ∨ (above magnitude dropped).ReadsAs magnitude := by
  intro dropped
  obtain ⟨-, -, hmany⟩ := fineDigits_bounds hpos h
  have hbelow := number_below_le magnitude dropped
  have habove := lt_number_above magnitude dropped
  have hfirst := le_number_below hpos h (show dropped < fineDigits magnitude by omega)
  by_contra hneither
  obtain ⟨hnotBelow, hnotAbove⟩ := not_or.1 hneither
  have hlower := (below magnitude dropped).isNearest_nearest
  have hupper := (above magnitude dropped).isNearest_nearest
  have hless := (hlower.mono (isNearest_value h) hbelow).lt_of_ne hnotBelow
  have hmore := ((isNearest_value h).mono hupper habove.le).lt_of_ne' hnotAbove
  -- The neighbours are beyond the middles between the magnitude and those around it.
  have hleft := (abs_lower_le_iff (value_strictMono hless)).1 (hlower.distance_le h)
  have hright := (abs_upper_le_iff (value_strictMono hmore)).1 (hupper.distance_le h)
  obtain ⟨magnitude, rfl⟩ : ∃ previous, magnitude = previous + 1 := ⟨magnitude - 1, by omega⟩
  have hnext := value_strictMono.monotone (Nat.succ_le_of_lt hmore)
  have hprevious := value_strictMono.monotone (Nat.le_of_lt_succ hless)
  have hgap := value_gap magnitude
  have hunit : (above (magnitude + 1) dropped).number - (below (magnitude + 1) dropped).number =
      10 ^ ((dropped : ℤ) - finestPlaces) := by
    unfold number above below
    push_cast
    ring
  have hpower : (10 : ℚ) ^ ((fineDigits (magnitude + 1) : ℤ) - 1 - finestPlaces) =
      10 ^ 16 * 10 ^ ((dropped : ℤ) - finestPlaces) := by
    rw [← zpow_natCast, ← zpow_add₀ (by norm_num)]
    congr 1
    omega
  rw [hpower, ← hunit] at hfirst
  linarith

/-- The neighbours have no more digits than were kept. -/
theorem length_digits_neighbour {count : Nat} (hcount : 0 < count)
    (hmost : count ≤ fineDigits magnitude) {decimal : Decimal}
    (hdecimal : decimal = below magnitude (fineDigits magnitude - count) ∨
      decimal = above magnitude (fineDigits magnitude - count)) :
    decimal.digits.length ≤ count := by
  obtain ⟨-, hupper, -⟩ := fineDigits_bounds hpos h
  have hkept : fineUnits magnitude / tenPow (fineDigits magnitude - count) < 10 ^ count := by
    rw [Nat.div_lt_iff_lt_mul (tenPow_pos _)]
    refine hupper.trans_le (le_of_eq ?_)
    change 10 ^ _ = 10 ^ _ * 10 ^ _
    rw [← pow_add, Nat.add_sub_cancel' hmost]
  rcases hdecimal with rfl | rfl
  · exact length_digits_le hcount hkept.le
  · exact length_digits_le hcount hkept

/-- Where dropping digits gives a decimal, the shortest one has no more digits. -/
theorem length_digits_shortest {count : Nat} (hcount : 0 < count) (hmost : count ≤ 17)
    (hsome : (droppingDigits? magnitude (fineUnits magnitude)
      (fineDigits magnitude - count)).isSome = true) :
    (shortest magnitude).digits.length ≤ count := by
  obtain ⟨-, -, hmany⟩ := fineDigits_bounds hpos h
  obtain ⟨fewer, decimal, hfewer, hle, hdecimal, hfound⟩ := exists_findSome?_range'
    (f := fun count ↦
      droppingDigits? magnitude (fineUnits magnitude) (fineDigits magnitude - count))
    hcount hmost hsome
  have hshortest : shortest magnitude = decimal := by
    rw [shortest_eq, hfound]
    rfl
  rw [hshortest]
  exact (length_digits_neighbour hpos h hfewer (by omega)
    (neighbour_of_droppingDigits? hdecimal)).trans hle

end Magnitude

/-- A decimal that is rounded to a magnitude, and has no more digits than any other that is. -/
structure IsShortest (decimal : Decimal) (magnitude : Nat) : Prop where
  isNearest : IsNearest magnitude decimal.number
  fewest : ∀ other : Decimal, IsNearest magnitude other.number →
    decimal.digits.length ≤ other.digits.length

theorem IsShortest.readsAs {magnitude : Nat} {decimal : Decimal}
    (h : decimal.IsShortest magnitude) : decimal.ReadsAs magnitude :=
  readsAs_iff.2 h.isNearest

theorem IsShortest.of_number_eq {magnitude : Nat} {decimal other : Decimal}
    (h : decimal.IsShortest magnitude) (hpos : 0 < magnitude)
    (hnumber : decimal.number = other.number) : other.IsShortest magnitude := by
  have hdigits : decimal.digits = other.digits :=
    digits_eq_of_number_eq (number_pos (coefficient_ne_zero hpos h.readsAs)) hnumber
  exact ⟨hnumber ▸ h.isNearest, hdigits ▸ h.fewest⟩

/-- Of the decimals that read back none has fewer digits than the one that is found. -/
theorem isShortest_shortest {magnitude : Nat} (hpos : 0 < magnitude) (h : magnitude ≤ infinity) :
    (shortest magnitude).IsShortest magnitude := by
  refine ⟨readsAs_iff.1 (readsAs_shortest h), fun decimal hnearest ↦ ?_⟩
  have hreads := readsAs_iff.2 hnearest
  have hsome := List.length_pos_iff.2 (digits_ne_nil (coefficient_ne_zero hpos hreads))
  rcases le_or_gt decimal.digits.length 17 with hfew | hmany
  · exact length_digits_shortest hpos h hsome hfew
      (isSome_droppingDigits? (readsAs_neighbour hpos h hreads hfew))
  · have hseventeen := length_digits_shortest hpos h (by decide) le_rfl
      (isSome_droppingDigits? (readsAs_seventeen hpos h))
    omega

end Decimal

end Slang
