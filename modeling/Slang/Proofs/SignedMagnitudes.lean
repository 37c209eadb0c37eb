import Slang.Proofs.Rounding

/-!
# Doubles as signed magnitudes

A double that is not "not a number" is its magnitude with a sign. Negation and the absolute value
change the sign alone, and doubles are compared like their signed magnitudes, as whole numbers: both
zeros are the same number, and a larger bit pattern without its sign bit is a larger number.
-/

namespace Slang.Binary64

open Float.Model Float.Model.UnpackedFloat

/-- The bit pattern of a double without its sign bit. -/
def magnitudeOf (number : Float) : Nat :=
  number.toBits.toNat % twoPow 63

def signOf (number : Float) : Sign :=
  if twoPow 63 ≤ number.toBits.toNat then .negative else .positive

/-- The magnitude of a double with its sign. -/
def signed (number : Float) : ℤ :=
  (signOf number).apply (magnitudeOf number)

theorem signed_eq (number : Float) :
    signed number = if twoPow 63 ≤ number.toBits.toNat then -(magnitudeOf number : ℤ)
      else magnitudeOf number := by
  unfold signed signOf
  split
  · rfl
  · rfl

theorem natAbs_signed (number : Float) : (signed number).natAbs = magnitudeOf number := by
  rw [signed_eq]
  split
  · exact (Int.natAbs_neg _).trans (Int.natAbs_natCast _)
  · exact Int.natAbs_natCast _

theorem signed_lt_zero_iff (number : Float) :
    signed number < 0 ↔ twoPow 63 ≤ number.toBits.toNat ∧ magnitudeOf number ≠ 0 := by
  rw [signed_eq]
  split
  · rename_i hnegative
    rw [and_iff_right hnegative]
    omega
  · rename_i hpositive
    rw [iff_false_right fun h ↦ hpositive h.1]
    omega

theorem toNat_toBits {number : Float} (h : 0 < signed number) :
    number.toBits.toNat = magnitudeOf number := by
  rw [signed_eq] at h
  split at h
  · omega
  · rename_i hpositive
    exact (Nat.mod_eq_of_lt (not_le.1 hpositive)).symm

/-! ## The fields of a bit pattern -/

section Fields

variable (number : Float)

theorem toNat_unpackMantissa :
    (@unpackMantissa .binary64 number.toBits.toBitVec).toNat = magnitudeOf number % 2 ^ 52 := by
  rw [unpackMantissa_def, BitVec.extractLsb'_toNat, Nat.shiftRight_zero]
  exact (Nat.mod_mod_of_dvd _ (Nat.pow_dvd_pow 2 (by decide))).symm

theorem toNat_unpackExponent :
    (@unpackExponent .binary64 number.toBits.toBitVec).toNat = magnitudeOf number / 2 ^ 52 := by
  rw [unpackExponent_def, BitVec.extractLsb'_toNat, Nat.shiftRight_eq_div_pow, magnitudeOf,
    twoPow_eq]
  change number.toBits.toNat / 2 ^ 52 % 2 ^ 11 = _
  omega

theorem ofBitVec_unpackSign :
    Sign.ofBitVec (@unpackSign .binary64 number.toBits.toBitVec) = signOf number := by
  have hsize : number.toBits.toNat < 2 ^ 64 := number.toBits.toNat_lt
  have hbit : (@unpackSign .binary64 number.toBits.toBitVec).toNat =
      number.toBits.toNat / 2 ^ 63 % 2 := by
    rw [unpackSign_def, BitVec.extractLsb'_toNat, Nat.shiftRight_eq_div_pow]
    rfl
  rw [signOf, Sign.ofBitVec, twoPow_eq]
  by_cases hnegative : 2 ^ 63 ≤ number.toBits.toNat
  · rw [if_pos hnegative, if_neg]
    intro hzero
    rw [hzero, BitVec.toNat_ofNat] at hbit
    omega
  · rw [if_neg hnegative, if_pos]
    apply BitVec.eq_of_toNat_eq
    rw [hbit, BitVec.toNat_ofNat]
    omega

end Fields

/-- The sign and the magnitude of a double that is put together from its fields. -/
theorem fields_of_packComponents {number : Float} {sign : Sign} {exponent : BitVec 11}
    {mantissa : BitVec 52}
    (h : number.toBits.toBitVec = packComponents .binary64 sign exponent mantissa) :
    signOf number = sign ∧ magnitudeOf number = exponent.toNat * 2 ^ 52 + mantissa.toNat := by
  have hsign := ofBitVec_unpackSign number
  have hexponent := toNat_unpackExponent number
  have hmantissa := toNat_unpackMantissa number
  rw [h, unpackSign_packComponents, Sign.ofBitVec_toBitVec] at hsign
  rw [h, unpackExponent_packComponents] at hexponent
  rw [h, unpackMantissa_packComponents] at hmantissa
  refine ⟨hsign.symm, ?_⟩
  rw [hexponent, hmantissa, Nat.div_add_mod']

/-! ## Numbers and their fields -/

/-- What a bit pattern with the given sign and magnitude is unpacked to, if it is not a pattern for
"not a number". The significand of a finite magnitude has fifty-three bits at most, and all of them
unless its exponent is the least one. -/
inductive Unpacked (sign : Sign) : Nat → UnpackedFloat → Prop
  | zero : Unpacked sign 0 (.zero sign)
  | finite {magnitude mantissa : Nat} {exponent : ℤ} (positive : 0 < mantissa)
      (upper : mantissa < 2 ^ 53) (least : -1074 ≤ exponent)
      (lower : -1074 < exponent → 2 ^ 52 ≤ mantissa)
      (magnitude_eq : (magnitude : ℤ) = (exponent + 1074) * 2 ^ 52 + mantissa)
      (below : magnitude < infinity) :
      Unpacked sign magnitude (.finite sign mantissa exponent positive)
  | infinite : Unpacked sign infinity (.infinity sign)

theorem unpacked {number : Float} (h : magnitudeOf number ≤ infinity) :
    Unpacked (signOf number) (magnitudeOf number) number.toModel.unpack := by
  have hfields := And.intro (toNat_unpackExponent number) (toNat_unpackMantissa number)
  rw [← ofBitVec_unpackSign]
  generalize magnitudeOf number = magnitude at *
  unfold infinity at h
  change Unpacked _ _ (UnpackedFloat.unpack .binary64 number.toBits.toBitVec)
  fun_cases UnpackedFloat.unpack with
  | case1 mantissa exponent bit sign hlargest hnone =>
    obtain ⟨hexponent, hmantissa⟩ : exponent.toNat = _ ∧ mantissa.toNat = _ := hfields
    replace hlargest : exponent.toNat = 2047 := congrArg BitVec.toNat hlargest
    replace hnone : mantissa.toNat = 0 := congrArg BitVec.toNat hnone
    obtain rfl : magnitude = infinity := by
      unfold infinity
      omega
    exact .infinite
  | case2 mantissa exponent hlargest hsome =>
    obtain ⟨hexponent, hmantissa⟩ : exponent.toNat = _ ∧ mantissa.toNat = _ := hfields
    replace hlargest : exponent.toNat = 2047 := congrArg BitVec.toNat hlargest
    replace hsome : mantissa.toNat ≠ 0 := fun hnone ↦ hsome (BitVec.eq_of_toNat_eq hnone)
    omega
  | case3 mantissa exponent bit sign _ hzero hnone =>
    obtain ⟨hexponent, hmantissa⟩ : exponent.toNat = _ ∧ mantissa.toNat = _ := hfields
    replace hzero : exponent.toNat = 0 := congrArg BitVec.toNat hzero
    replace hnone : mantissa.toNat = 0 := congrArg BitVec.toNat hnone
    obtain rfl : magnitude = 0 := by omega
    exact .zero
  | case4 mantissa exponent power bit sign _ hzero hsome =>
    obtain ⟨hexponent, hmantissa⟩ : exponent.toNat = _ ∧ mantissa.toNat = _ := hfields
    replace hzero : exponent.toNat = 0 := congrArg BitVec.toNat hzero
    have hpower : power = exponent.toNat - 1075 := rfl
    refine .finite _ (by omega) (by omega) (by omega) (by omega) ?_
    unfold infinity
    omega
  | case5 mantissa exponent power bit sign hlarge hsmall =>
    obtain ⟨hexponent, hmantissa⟩ : exponent.toNat = _ ∧ mantissa.toNat = _ := hfields
    replace hlarge : exponent.toNat ≠ 2047 := fun hall ↦ hlarge (BitVec.eq_of_toNat_eq hall)
    replace hsmall : exponent.toNat ≠ 0 := fun hnone ↦ hsmall (BitVec.eq_of_toNat_eq hnone)
    have hpower : power = exponent.toNat - 1075 := rfl
    have hvalue : (1#1 ++ mantissa).toNat = 2 ^ 52 + mantissa.toNat := by
      have hor := Nat.two_pow_add_eq_or_of_lt mantissa.isLt 1
      rw [Nat.mul_one] at hor
      rw [BitVec.toNat_append]
      exact hor.symm
    refine .finite _ (by omega) (by omega) (by omega) (by omega) ?_
    unfold infinity
    omega

theorem unpack_of_lt {number : Float} (h : infinity < magnitudeOf number) :
    number.toModel.unpack = .notANumber := by
  have hexponent := toNat_unpackExponent number
  have hmantissa := toNat_unpackMantissa number
  have hsize : magnitudeOf number < 2 ^ 63 := Nat.mod_lt _ (by decide)
  unfold infinity at h
  change UnpackedFloat.unpack .binary64 number.toBits.toBitVec = _
  unfold UnpackedFloat.unpack
  dsimp only
  rw [if_pos, if_neg]
  · intro hnone
    replace hnone : _ = 0 := congrArg BitVec.toNat hnone
    omega
  · apply BitVec.eq_of_toNat_eq
    rw [hexponent]
    change _ = 2047
    omega

theorem isFinite_iff (number : Float) :
    number.isFinite = true ↔ magnitudeOf number < infinity := by
  rcases Nat.lt_or_ge infinity (magnitudeOf number) with hbeyond | hnumber
  · change number.toModel.unpack.isFinite = true ↔ _
    rw [unpack_of_lt hbeyond]
    exact iff_of_false Bool.false_ne_true hbeyond.not_gt
  · change number.toModel.unpack.isFinite = true ↔ _
    generalize hmagnitude : magnitudeOf number = magnitude at *
    have hunpacked := unpacked (hmagnitude ▸ hnumber)
    rw [hmagnitude] at hunpacked
    generalize number.toModel.unpack = fields at *
    cases hunpacked with
    | zero => exact iff_of_true rfl (by decide)
    | finite _ _ _ _ _ below => exact iff_of_true rfl below
    | infinite => exact iff_of_false Bool.false_ne_true (lt_irrefl _)

/-! ## Changing the sign -/

/-- Negation and the absolute value keep the fields but for the sign. -/
theorem Unpacked.exists_packComponents {sign : Sign} {magnitude : Nat} {fields : UnpackedFloat}
    (h : Unpacked sign magnitude fields) :
    ∃ exponent mantissa,
      fields.pack .binary64 = packComponents .binary64 sign exponent mantissa ∧
      fields.neg.pack .binary64 = packComponents .binary64 (-sign) exponent mantissa ∧
      fields.abs.pack .binary64 = packComponents .binary64 .positive exponent mantissa := by
  cases h with
  | zero => exact ⟨0, 0, rfl, rfl, rfl⟩
  | infinite => exact ⟨-1#_, 0, rfl, rfl, rfl⟩
  | finite =>
    simp only [UnpackedFloat.neg, UnpackedFloat.abs, UnpackedFloat.pack]
    split
    · exact ⟨-1#_, 0, rfl, rfl, rfl⟩
    split
    · exact ⟨_, _, rfl, rfl, rfl⟩
    · exact ⟨_, _, rfl, rfl, rfl⟩

section Signs

variable {number : Float} (h : magnitudeOf number ≤ infinity)
include h

theorem exists_fields :
    ∃ exponent mantissa,
      number.toBits.toBitVec = packComponents .binary64 (signOf number) exponent mantissa ∧
      (-number).toBits.toBitVec = packComponents .binary64 (-signOf number) exponent mantissa ∧
      number.abs.toBits.toBitVec = packComponents .binary64 .positive exponent mantissa := by
  obtain ⟨exponent, mantissa, hpack, hneg, habs⟩ := (unpacked h).exists_packComponents
  refine ⟨exponent, mantissa, ?_, hneg, habs⟩
  rw [← hpack]
  exact (pack_unpack_of_valid number.toModel.valid).symm

theorem signed_neg : signed (-number) = -signed number := by
  obtain ⟨exponent, mantissa, hnumber, hneg, -⟩ := exists_fields h
  obtain ⟨-, hmagnitude⟩ := fields_of_packComponents hnumber
  obtain ⟨hsign, hsame⟩ := fields_of_packComponents hneg
  rw [signed, signed, hsign, hsame, hmagnitude]
  cases signOf number with
  | positive => rfl
  | negative => exact (neg_neg _).symm

theorem signed_abs : signed number.abs = magnitudeOf number := by
  obtain ⟨exponent, mantissa, hnumber, -, habs⟩ := exists_fields h
  obtain ⟨-, hmagnitude⟩ := fields_of_packComponents hnumber
  obtain ⟨hsign, hsame⟩ := fields_of_packComponents habs
  rw [signed, hsign, hsame, hmagnitude]
  rfl

theorem magnitudeOf_neg : magnitudeOf (-number) = magnitudeOf number := by
  rw [← natAbs_signed, signed_neg h, Int.natAbs_neg, natAbs_signed]

theorem magnitudeOf_abs : magnitudeOf number.abs = magnitudeOf number := by
  rw [← natAbs_signed, signed_abs h, Int.natAbs_natCast]

end Signs

/-! ## Comparing -/

/-- The exponent is in front of the significand, in comparing as in a bit pattern. -/
theorem compare_then {exponent exponent' : ℤ} {mantissa mantissa' : ℕ}
    (h : mantissa < 2 ^ 53) (h' : mantissa' < 2 ^ 53)
    (hleast : -1074 ≤ exponent) (hleast' : -1074 ≤ exponent')
    (hlower : -1074 < exponent → 2 ^ 52 ≤ mantissa)
    (hlower' : -1074 < exponent' → 2 ^ 52 ≤ mantissa') {position position' : ℤ}
    (hposition : position = (exponent + 1074) * 2 ^ 52 + mantissa)
    (hposition' : position' = (exponent' + 1074) * 2 ^ 52 + mantissa') :
    (compare exponent exponent').then (compare mantissa mantissa') =
      compare position position' := by
  rcases lt_trichotomy exponent exponent' with hlt | rfl | hgt
  · have hless : position < position' := by omega
    rw [compare_lt_iff_lt.2 hlt, compare_lt_iff_lt.2 hless]
    rfl
  · rw [compare_eq_iff_eq.2 rfl]
    rcases lt_trichotomy mantissa mantissa' with hlt | rfl | hgt
    · have hless : position < position' := by omega
      rw [compare_lt_iff_lt.2 hlt, compare_lt_iff_lt.2 hless]
      rfl
    · obtain rfl : position = position' := hposition.trans hposition'.symm
      rw [compare_eq_iff_eq.2 rfl, compare_eq_iff_eq.2 rfl]
      rfl
    · have hgreater : position > position' := by omega
      rw [compare_gt_iff_gt.2 hgt, compare_gt_iff_gt.2 hgreater]
      rfl
  · have hgreater : position > position' := by omega
    rw [compare_gt_iff_gt.2 hgt, compare_gt_iff_gt.2 hgreater]
    rfl

theorem some_lt {first second : ℤ} (h : first < second) :
    some .lt = some (compare first second) :=
  congrArg some (compare_lt_iff_lt.2 h).symm

theorem some_gt {first second : ℤ} (h : second < first) :
    some .gt = some (compare first second) :=
  congrArg some (compare_gt_iff_gt.2 h).symm

theorem compare_neg_neg (first second : ℤ) :
    compare (-first) (-second) = (compare first second).swap := by
  rcases lt_trichotomy first second with hlt | rfl | hgt
  · rw [compare_lt_iff_lt.2 hlt, compare_gt_iff_gt.2 (neg_lt_neg hlt)]
    rfl
  · rw [compare_eq_iff_eq.2 rfl, compare_eq_iff_eq.2 rfl]
    rfl
  · rw [compare_gt_iff_gt.2 hgt, compare_lt_iff_lt.2 (neg_lt_neg hgt)]
    rfl

theorem abs_apply_lt (sign : Sign) {magnitude : Nat} (h : magnitude < infinity) :
    |sign.apply magnitude| < infinity := by
  cases sign with
  | positive => simpa [Sign.apply] using h
  | negative => simpa [Sign.apply] using h

theorem apply_zero (sign : Sign) : sign.apply (0 : ℕ) = 0 := by
  cases sign <;> rfl

section Unpacked

variable {sign sign' : Sign} {magnitude magnitude' : Nat} {fields fields' : UnpackedFloat}

theorem Unpacked.compare_zero (sign : Sign) (h : Unpacked sign' magnitude' fields') :
    (UnpackedFloat.zero sign).compare fields' = some (compare 0 (sign'.apply magnitude')) := by
  have hinfinity : 0 < infinity := by decide
  cases h with
  | zero =>
    rw [apply_zero]
    rfl
  | finite positive' _ least' _ magnitude_eq' _ =>
    cases sign' with
    | positive => exact some_lt (show 0 < (magnitude' : ℤ) by omega)
    | negative => exact some_gt (show -(magnitude' : ℤ) < 0 by omega)
  | infinite =>
    cases sign' with
    | positive => exact some_lt (show 0 < (infinity : ℤ) by omega)
    | negative => exact some_gt (show -(infinity : ℤ) < 0 by omega)

theorem Unpacked.compare_infinite (sign : Sign) (h : Unpacked sign' magnitude' fields') :
    (UnpackedFloat.infinity sign).compare fields' =
      some (compare (sign.apply infinity) (sign'.apply magnitude')) := by
  have hinfinity : 0 < infinity := by decide
  cases h with
  | zero =>
    rw [apply_zero]
    cases sign with
    | positive => exact some_gt (show 0 < (infinity : ℤ) by omega)
    | negative => exact some_lt (show -(infinity : ℤ) < 0 by omega)
  | finite _ _ _ _ _ below' =>
    have hbounds := abs_lt.1 (abs_apply_lt sign' below')
    cases sign with
    | positive => exact some_gt hbounds.2
    | negative => exact some_lt hbounds.1
  | infinite =>
    cases sign with
    | positive =>
      cases sign' with
      | positive => rfl
      | negative => exact some_gt (show -(infinity : ℤ) < infinity by omega)
    | negative =>
      cases sign' with
      | positive => exact some_lt (show -(infinity : ℤ) < infinity by omega)
      | negative => rfl

/-- Numbers are compared like their signed magnitudes. -/
theorem Unpacked.compare_eq (h : Unpacked sign magnitude fields)
    (h' : Unpacked sign' magnitude' fields') :
    fields.compare fields' = some (compare (sign.apply magnitude) (sign'.apply magnitude')) := by
  cases h with
  | zero =>
    rw [apply_zero]
    exact h'.compare_zero sign
  | infinite => exact h'.compare_infinite sign
  | finite positive upper least lower magnitude_eq below =>
    cases h' with
    | zero =>
      rw [apply_zero]
      cases sign with
      | positive => exact some_gt (show 0 < (magnitude : ℤ) by omega)
      | negative => exact some_lt (show -(magnitude : ℤ) < 0 by omega)
    | finite positive' upper' least' lower' magnitude_eq' below' =>
      have hcompare := compare_then upper upper' least least' lower lower' magnitude_eq
        magnitude_eq'
      cases sign with
      | positive =>
        cases sign' with
        | positive => exact congrArg some hcompare
        | negative => exact some_gt (show -(magnitude' : ℤ) < magnitude by omega)
      | negative =>
        cases sign' with
        | positive => exact some_lt (show -(magnitude : ℤ) < magnitude' by omega)
        | negative =>
          exact congrArg some ((congrArg Ordering.swap hcompare).trans (compare_neg_neg ..).symm)
    | infinite =>
      have hbounds := abs_lt.1 (abs_apply_lt sign below)
      cases sign' with
      | positive => exact some_lt hbounds.2
      | negative => exact some_gt hbounds.1

end Unpacked

/-! ## Numbers in order -/

variable {first second : Float}

/-- Numbers are compared, and "not a number" is not. -/
theorem compare_eq_some_iff {ordering : Ordering} :
    first.toModel.unpack.compare second.toModel.unpack = some ordering ↔
      magnitudeOf first ≤ infinity ∧ magnitudeOf second ≤ infinity ∧
        compare (signed first) (signed second) = ordering := by
  rcases Nat.lt_or_ge infinity (magnitudeOf first) with hfirst | hfirst
  · rw [unpack_of_lt hfirst]
    exact iff_of_false (Option.some_ne_none _).symm fun h ↦ h.1.not_gt hfirst
  rcases Nat.lt_or_ge infinity (magnitudeOf second) with hsecond | hsecond
  · have hnone : first.toModel.unpack.compare .notANumber = none := by
      cases first.toModel.unpack <;> rfl
    rw [unpack_of_lt hsecond, hnone]
    exact iff_of_false (Option.some_ne_none _).symm fun h ↦ h.2.1.not_gt hsecond
  · rw [(unpacked hfirst).compare_eq (unpacked hsecond), Option.some_inj]
    exact (and_iff_right hfirst).symm.trans (and_congr_right fun _ ↦ (and_iff_right hsecond).symm)

theorem lt_iff :
    first < second ↔ magnitudeOf first ≤ infinity ∧ magnitudeOf second ≤ infinity ∧
      signed first < signed second := by
  have hless : first < second ↔ first.toModel.unpack.compare second.toModel.unpack = some .lt :=
    decide_eq_true_iff.trans beq_iff_eq
  rw [hless, compare_eq_some_iff, compare_lt_iff_lt]

theorem beq_iff :
    (first == second) = true ↔ magnitudeOf first ≤ infinity ∧ magnitudeOf second ≤ infinity ∧
      signed first = signed second := by
  have hsame : (first == second) = true ↔
      first.toModel.unpack.compare second.toModel.unpack = some .eq := by
    change (_ == some Ordering.eq) = true ↔ _
    exact beq_iff_eq
  rw [hsame, compare_eq_some_iff, compare_eq_iff_eq]

theorem le_iff :
    first ≤ second ↔ magnitudeOf first ≤ infinity ∧ magnitudeOf second ≤ infinity ∧
      signed first ≤ signed second := by
  have hle : first ≤ second ↔
      ∃ ordering, first.toModel.unpack.compare second.toModel.unpack = some ordering ∧
        ordering.isLE = true :=
    decide_eq_true_iff.trans (Option.any_eq_true _ _)
  rw [hle]
  simp only [compare_eq_some_iff]
  constructor
  · rintro ⟨ordering, ⟨hfirst, hsecond, rfl⟩, hless⟩
    exact ⟨hfirst, hsecond, Std.isLE_compare.1 hless⟩
  · rintro ⟨hfirst, hsecond, hless⟩
    exact ⟨_, ⟨hfirst, hsecond, rfl⟩, Std.isLE_compare.2 hless⟩

end Slang.Binary64
