import Mathlib
import Slang.Number.Format

/-!
# Rounding to the nearest double

A magnitude is a power of two times a significand of at most fifty-three bits, and the numbers of
that form with one power are the multiples of it up to the next power. So the nearest multiple of
the right power is the nearest magnitude, with a half going to the even one. A number that is
rounded beyond the largest finite magnitude is nearer to infinity, which takes the place of
`2 ^ 1024`.
-/

namespace Slang

namespace Binary64

/-! ## Bit patterns -/

/-- A double is made of any magnitude that is not a pattern for "not a number". -/
theorem toBits_ofBits {magnitude : Nat} (h : magnitude ≤ infinity) :
    (Float.ofBits (UInt64.ofNat magnitude)).toBits.toNat = magnitude := by
  have hsize : magnitude < 2 ^ 64 := Nat.lt_of_le_of_lt h (by decide)
  have hvalid : Float.Model.Format.binary64.Valid (UInt64.ofNat magnitude).toBitVec := by
    refine ⟨fun hexponent hmantissa ↦ absurd ?_ hmantissa⟩
    have hlargest := congrArg BitVec.toNat hexponent
    rw [Float.Model.UnpackedFloat.unpackExponent_def, BitVec.extractLsb'_toNat,
      Nat.shiftRight_eq_div_pow] at hlargest
    apply BitVec.eq_of_toNat_eq
    rw [Float.Model.UnpackedFloat.unpackMantissa_def, BitVec.extractLsb'_toNat,
      Nat.shiftRight_eq_div_pow]
    simp at hlargest ⊢
    unfold infinity at h
    omega
  have hpack := Float.Model.UnpackedFloat.pack_unpack_of_valid hvalid
  change (Float.Model.UnpackedFloat.pack _ _).toNat = magnitude
  rw [hpack]
  exact UInt64.toNat_ofNat_of_lt hsize

/-! ## Rounded quotients -/

section RoundedQuotient

variable (numerator : Nat) {denominator : Nat} (h : 0 < denominator)
include h

/-- A quotient is rounded by a half at most, and then to an even number. -/
theorem abs_roundedQuotient_sub_le :
    |(roundedQuotient numerator denominator : ℚ) - numerator / denominator| ≤ 1 / 2 ∧
      (|(roundedQuotient numerator denominator : ℚ) - numerator / denominator| = 1 / 2 →
        roundedQuotient numerator denominator % 2 = 0) := by
  have hpos : (0 : ℚ) < denominator := by exact_mod_cast h
  obtain ⟨rest, hrest⟩ : ∃ rest : ℚ, rest = (numerator % denominator : ℕ) / denominator := ⟨_, rfl⟩
  have hquotient : (numerator : ℚ) / denominator = (numerator / denominator : ℕ) + rest := by
    rw [hrest, div_eq_iff hpos.ne', add_mul, div_mul_cancel₀ _ hpos.ne']
    exact_mod_cast (Nat.div_add_mod' numerator denominator).symm
  have hnonneg : 0 ≤ rest := by rw [hrest]; positivity
  have hlt : rest < 1 := by
    rw [hrest, div_lt_one hpos]
    exact_mod_cast Nat.mod_lt _ h
  have hbelow_iff : 2 * (numerator % denominator) < denominator ↔ rest < 1 / 2 := by
    rw [hrest, div_lt_div_iff₀ hpos (by norm_num)]
    norm_cast
    omega
  have habove_iff : denominator < 2 * (numerator % denominator) ↔ 1 / 2 < rest := by
    rw [hrest, div_lt_div_iff₀ (by norm_num) hpos]
    norm_cast
    omega
  rw [hquotient]
  unfold roundedQuotient
  dsimp only
  split
  · rename_i hbelow
    rw [hbelow_iff] at hbelow
    rw [sub_add_cancel_left, abs_neg, abs_of_nonneg hnonneg]
    exact ⟨hbelow.le, fun heq ↦ absurd heq hbelow.ne⟩
  split
  · rename_i habove
    rw [habove_iff] at habove
    rw [show ((numerator / denominator + 1 : ℕ) : ℚ) - ((numerator / denominator : ℕ) + rest) =
      1 - rest by push_cast; ring, abs_of_pos (by linarith)]
    exact ⟨by linarith, fun heq ↦ absurd heq (by linarith)⟩
  · rename_i hbelow habove
    rw [hbelow_iff] at hbelow
    rw [habove_iff] at habove
    have hexact : rest = 1 / 2 := le_antisymm (not_lt.1 habove) (not_lt.1 hbelow)
    have heven : (numerator / denominator + numerator / denominator % 2) % 2 = 0 := by omega
    refine ⟨?_, fun _ ↦ heven⟩
    rw [hexact]
    rcases Nat.mod_two_eq_zero_or_one (numerator / denominator) with hparity | hparity
    · rw [hparity, Nat.add_zero, sub_add_cancel_left, abs_neg]
      norm_num
    · rw [hparity, Nat.cast_add, add_sub_add_left_eq_sub]
      norm_num

/-- No whole number is closer to the quotient, and one that is equally close is odd. -/
theorem roundedQuotient_nearest {other : Nat}
    (hother : other ≠ roundedQuotient numerator denominator) :
    |(roundedQuotient numerator denominator : ℚ) - numerator / denominator| <
        |(other : ℚ) - numerator / denominator| ∨
      |(roundedQuotient numerator denominator : ℚ) - numerator / denominator| =
        |(other : ℚ) - numerator / denominator| ∧
        roundedQuotient numerator denominator % 2 = 0 := by
  obtain ⟨hhalf, heven⟩ := abs_roundedQuotient_sub_le numerator h
  generalize roundedQuotient numerator denominator = rounded at *
  generalize (numerator : ℚ) / denominator = quotient at *
  have hapart : (1 : ℚ) ≤ |(other : ℚ) - rounded| := by
    have hne : (other : ℤ) - rounded ≠ 0 := sub_ne_zero.2 (by exact_mod_cast hother)
    exact_mod_cast Int.one_le_abs hne
  have htriangle := abs_sub_le (other : ℚ) quotient rounded
  rw [abs_sub_comm quotient] at htriangle
  rcases lt_or_ge |(rounded : ℚ) - quotient| |(other : ℚ) - quotient| with hcloser | hcloser
  · exact .inl hcloser
  · exact .inr ⟨by linarith, heven (by linarith)⟩

end RoundedQuotient

/-! ## Magnitudes as multiples of powers of two -/

theorem twoPow_eq (exponent : Nat) : twoPow exponent = 2 ^ exponent := rfl

theorem twoPow_pos (exponent : Nat) : 0 < twoPow exponent :=
  Nat.two_pow_pos exponent

theorem scaled_of_lt {magnitude : Nat} (h : magnitude < 2 ^ 52) : scaled magnitude = magnitude := by
  rw [scaled, significand, twoPow_eq, if_pos h, Nat.div_eq_of_lt h]
  exact Nat.mul_one magnitude

theorem scaled_of_le {exponent fraction : Nat} (h : fraction < 2 ^ 52) :
    scaled ((exponent + 1) * 2 ^ 52 + fraction) = (2 ^ 52 + fraction) * 2 ^ exponent := by
  have hexponent : ((exponent + 1) * 2 ^ 52 + fraction) / 2 ^ 52 = exponent + 1 := by omega
  have hfraction : ((exponent + 1) * 2 ^ 52 + fraction) % 2 ^ 52 = fraction := by omega
  rw [scaled, significand, twoPow_eq, twoPow_eq, if_neg (by omega), hexponent, hfraction]
  rfl

/-- A power of two and a significand give a magnitude. A significand that has grown to the next
power of two gives the first magnitude with that power. -/
theorem scaled_add {shift rounded : Nat} (hupper : rounded ≤ 2 ^ 53)
    (hlower : 0 < shift → 2 ^ 52 ≤ rounded) :
    scaled (shift * 2 ^ 52 + rounded) = rounded * 2 ^ shift := by
  rcases hupper.lt_or_eq with hlt | rfl
  · by_cases hsmall : rounded < 2 ^ 52
    · obtain rfl : shift = 0 := Nat.eq_zero_of_not_pos fun hpos ↦ (hlower hpos).not_gt hsmall
      rw [Nat.zero_mul, Nat.zero_add, scaled_of_lt hsmall]
      exact (Nat.mul_one rounded).symm
    · have hmagnitude : shift * 2 ^ 52 + rounded = (shift + 1) * 2 ^ 52 + (rounded - 2 ^ 52) := by
        omega
      rw [hmagnitude, scaled_of_le (by omega), Nat.add_sub_cancel' (not_lt.1 hsmall)]
  · have hmagnitude : shift * 2 ^ 52 + 2 ^ 53 = (shift + 1 + 1) * 2 ^ 52 + 0 := by omega
    rw [hmagnitude, scaled_of_le (by decide), Nat.pow_succ]
    omega

/-- Every magnitude has a significand of at most fifty-three bits. -/
theorem exists_significand (magnitude : Nat) :
    ∃ shift rounded, magnitude = shift * 2 ^ 52 + rounded ∧ rounded < 2 ^ 53 ∧
      (0 < shift → 2 ^ 52 ≤ rounded) := by
  by_cases hsmall : magnitude < 2 ^ 52
  · exact ⟨0, magnitude, by omega, by omega, fun h ↦ absurd h (Nat.lt_irrefl 0)⟩
  · exact ⟨magnitude / 2 ^ 52 - 1, 2 ^ 52 + magnitude % 2 ^ 52, by omega, by omega, by omega⟩

theorem scaled_strictMono : StrictMono scaled := by
  apply strictMono_nat_of_lt_succ
  intro magnitude
  obtain ⟨shift, rounded, rfl, hupper, hlower⟩ := exists_significand magnitude
  have hnext : scaled (shift * 2 ^ 52 + (rounded + 1)) = (rounded + 1) * 2 ^ shift :=
    scaled_add hupper fun hpos ↦ Nat.le_succ_of_le (hlower hpos)
  rw [scaled_add hupper.le hlower, Nat.add_assoc, hnext]
  exact Nat.mul_lt_mul_of_pos_right (Nat.lt_succ_self rounded) (Nat.two_pow_pos shift)

/-! ## The nearest magnitude -/

theorem abs_sub_lt_abs_sub {lower upper number : ℚ} (h : lower < upper) (hle : upper ≤ number) :
    |upper - number| < |lower - number| := by
  rw [abs_of_nonpos (sub_nonpos.2 hle), abs_of_nonpos (sub_nonpos.2 (h.le.trans hle))]
  linarith

/-- The power of two whose multiples are the magnitudes around a quotient. -/
def shift (units denominator : Nat) : Nat :=
  (units / denominator).log2 - 52

/-- The multiple of that power nearest to the quotient. -/
def multiple (units denominator : Nat) : Nat :=
  roundedQuotient units (denominator * 2 ^ shift units denominator)

section Nearest

variable (units : Nat) {denominator : Nat} (h : 0 < denominator)
include h

theorem quotient_lt : (units : ℚ) / denominator < 2 ^ 53 * 2 ^ shift units denominator := by
  have hpos : (0 : ℚ) < denominator := by exact_mod_cast h
  have hlog : units / denominator < 2 ^ (53 + shift units denominator) := by
    refine Nat.lt_of_lt_of_le Nat.lt_log2_self (Nat.pow_le_pow_right Nat.two_pos ?_)
    unfold shift
    omega
  rw [Nat.div_lt_iff_lt_mul h] at hlog
  rw [div_lt_iff₀ hpos, ← pow_add]
  exact_mod_cast hlog

theorem le_quotient (hshift : 0 < shift units denominator) :
    2 ^ 52 * 2 ^ shift units denominator ≤ (units : ℚ) / denominator := by
  have hpos : (0 : ℚ) < denominator := by exact_mod_cast h
  have hne : units / denominator ≠ 0 := by
    intro hzero
    rw [shift, hzero] at hshift
    exact absurd hshift (by decide)
  have hlog : 2 ^ (52 + shift units denominator) ≤ units / denominator := by
    refine Nat.le_trans (Nat.pow_le_pow_right Nat.two_pos ?_) (Nat.log2_self_le hne)
    unfold shift at hshift ⊢
    omega
  rw [Nat.le_div_iff_mul_le h] at hlog
  rw [le_div_iff₀ hpos, ← pow_add]
  exact_mod_cast hlog

/-- Distances from the quotient are counted in multiples. -/
theorem abs_mul_sub (count : Nat) :
    |(count : ℚ) * 2 ^ shift units denominator - units / denominator| =
      |(count : ℚ) - units / (denominator * 2 ^ shift units denominator : ℕ)| *
        2 ^ shift units denominator := by
  have hpos : (denominator : ℚ) ≠ 0 := by exact_mod_cast h.ne'
  have hpower : (0 : ℚ) < 2 ^ shift units denominator := by positivity
  rw [← abs_of_pos hpower, ← abs_mul, abs_of_pos hpower, sub_mul]
  congr 2
  push_cast
  field_simp

theorem multiple_bounds :
    multiple units denominator ≤ 2 ^ 53 ∧
      (0 < shift units denominator → 2 ^ 52 ≤ multiple units denominator) := by
  have hpower : (0 : ℚ) < 2 ^ shift units denominator := by positivity
  have hdenominator : 0 < denominator * 2 ^ shift units denominator :=
    Nat.mul_pos h (Nat.two_pow_pos _)
  have hquotient : (units : ℚ) / (denominator * 2 ^ shift units denominator : ℕ) =
      units / denominator / 2 ^ shift units denominator := by
    push_cast
    rw [div_div]
  obtain ⟨hhalf, -⟩ := abs_roundedQuotient_sub_le units hdenominator
  rw [hquotient] at hhalf
  obtain ⟨hbelow, habove⟩ := abs_le.1 hhalf
  constructor
  · have hupper := quotient_lt units h
    rw [← div_lt_iff₀ hpower] at hupper
    have hlt : (multiple units denominator : ℚ) < 2 ^ 53 + 1 := by
      unfold multiple
      linarith
    exact Nat.lt_succ_iff.1 (by exact_mod_cast hlt)
  · intro hshift
    have hlower := le_quotient units h hshift
    rw [← le_div_iff₀ hpower] at hlower
    have hlt : (2 ^ 52 : ℚ) < multiple units denominator + 1 := by
      unfold multiple
      linarith
    exact Nat.lt_succ_iff.1 (by exact_mod_cast hlt)

/-- The scale goes on beyond infinity, and no magnitude on it is closer to the quotient. -/
theorem scaled_nearest {other : Nat}
    (hother : other ≠ shift units denominator * 2 ^ 52 + multiple units denominator) :
    let magnitude := shift units denominator * 2 ^ 52 + multiple units denominator
    |(scaled magnitude : ℚ) - units / denominator| < |(scaled other : ℚ) - units / denominator| ∨
      |(scaled magnitude : ℚ) - units / denominator| =
        |(scaled other : ℚ) - units / denominator| ∧ magnitude % 2 = 0 := by
  intro magnitude
  obtain ⟨hupper, hlower⟩ := multiple_bounds units h
  have hpower : (0 : ℚ) < 2 ^ shift units denominator := by positivity
  have hdenominator : 0 < denominator * 2 ^ shift units denominator :=
    Nat.mul_pos h (Nat.two_pow_pos _)
  have hmagnitude : (scaled magnitude : ℚ) =
      multiple units denominator * 2 ^ shift units denominator := by
    exact_mod_cast scaled_add hupper hlower
  have hcompare {count : Nat} (hcount : count ≠ multiple units denominator) :
      |(scaled magnitude : ℚ) - units / denominator| <
          |(count : ℚ) * 2 ^ shift units denominator - units / denominator| ∨
        |(scaled magnitude : ℚ) - units / denominator| =
          |(count : ℚ) * 2 ^ shift units denominator - units / denominator| ∧
          magnitude % 2 = 0 := by
    rw [hmagnitude, abs_mul_sub units h, abs_mul_sub units h]
    rcases roundedQuotient_nearest units hdenominator hcount with hcloser | ⟨hequal, heven⟩
    · exact .inl (mul_lt_mul_of_pos_right hcloser hpower)
    · refine .inr ⟨congrArg (· * _) hequal, ?_⟩
      change (_ * 2 ^ 52 + roundedQuotient _ _) % 2 = 0
      omega
  obtain ⟨power, rounded, rfl, hrounded, hpowered⟩ := exists_significand other
  have hscaled := scaled_add hrounded.le hpowered
  rcases Nat.lt_or_ge power (shift units denominator) with hbelow | habove
  · -- The other magnitude is below the first multiple that counts, and that is below the quotient.
    have hfirst : |(scaled magnitude : ℚ) - units / denominator| ≤
        |((2 ^ 52 : ℕ) : ℚ) * 2 ^ shift units denominator - units / denominator| := by
      by_cases hequal : 2 ^ 52 = multiple units denominator
      · rw [hmagnitude, hequal]
      · exact (hcompare hequal).elim le_of_lt fun hsame ↦ hsame.1.le
    have hlt : rounded * 2 ^ power < 2 ^ 52 * 2 ^ shift units denominator :=
      calc
        rounded * 2 ^ power < 2 ^ 53 * 2 ^ power :=
          Nat.mul_lt_mul_of_pos_right hrounded (Nat.two_pow_pos power)
        _ = 2 ^ 52 * 2 ^ (power + 1) := by rw [Nat.pow_succ]; omega
        _ ≤ 2 ^ 52 * 2 ^ shift units denominator :=
          Nat.mul_le_mul_left _ (Nat.pow_le_pow_right Nat.two_pos hbelow)
    refine .inl (hfirst.trans_lt (abs_sub_lt_abs_sub ?_ ?_))
    · rw [hscaled]
      exact_mod_cast hlt
    · exact_mod_cast le_quotient units h (Nat.zero_lt_of_lt hbelow)
  · -- The other magnitude is one of the multiples, too.
    obtain ⟨more, rfl⟩ := Nat.exists_eq_add_of_le habove
    have hmultiple : scaled ((shift units denominator + more) * 2 ^ 52 + rounded) =
        rounded * 2 ^ more * 2 ^ shift units denominator := by
      rw [hscaled, pow_add, mul_assoc, mul_comm (2 ^ more)]
    have hcount : rounded * 2 ^ more ≠ multiple units denominator := by
      intro hequal
      rw [hequal, ← scaled_add hupper hlower] at hmultiple
      exact hother (scaled_strictMono.injective hmultiple)
    have hcast : (scaled ((shift units denominator + more) * 2 ^ 52 + rounded) : ℚ) =
        (rounded * 2 ^ more : ℕ) * 2 ^ shift units denominator := by
      exact_mod_cast hmultiple
    rw [hcast]
    exact hcompare hcount

end Nearest

/-- How far a magnitude is from a number. Infinity counts as the first power of two that is too
large for a finite magnitude. -/
def distance (magnitude : Nat) (number : ℚ) : ℚ :=
  |(scaled magnitude : ℚ) / twoPow 1074 - number|

/-- No double is nearer to a number than the one with the given magnitude. If another one is equally
near, the last bit of the magnitude is zero. -/
structure IsNearest (magnitude : Nat) (number : ℚ) : Prop where
  le_infinity : magnitude ≤ infinity
  nearer : ∀ other ≤ infinity, other ≠ magnitude →
    distance magnitude number < distance other number ∨
      distance magnitude number = distance other number ∧ magnitude % 2 = 0

theorem distance_eq (magnitude numerator denominator : Nat) :
    distance magnitude (numerator / denominator) =
      |(scaled magnitude : ℚ) - (numerator * twoPow 1074 : ℕ) / denominator| / twoPow 1074 := by
  have hunit : (0 : ℚ) < twoPow 1074 := Nat.cast_pos.2 (twoPow_pos 1074)
  unfold distance
  generalize twoPow 1074 = unit at *
  rw [eq_div_iff hunit.ne', ← abs_of_pos hunit, ← abs_mul, abs_of_pos hunit, sub_mul,
    div_mul_cancel₀ _ hunit.ne']
  push_cast
  rw [div_mul_eq_mul_div]

/-- Rounding a quotient finds the nearest double. -/
theorem isNearest_nearest (numerator : Nat) {denominator : Nat} (h : 0 < denominator) :
    IsNearest (nearest numerator denominator) (numerator / denominator) := by
  have hnearest := @scaled_nearest (numerator * twoPow 1074) denominator h
  have hrounds : nearest numerator denominator = min infinity
      (shift (numerator * twoPow 1074) denominator * 2 ^ 52 +
        multiple (numerator * twoPow 1074) denominator) := rfl
  dsimp only at hnearest
  generalize shift (numerator * twoPow 1074) denominator * 2 ^ 52 +
    multiple (numerator * twoPow 1074) denominator = magnitude at hnearest hrounds
  have hunit : (0 : ℚ) < twoPow 1074 := Nat.cast_pos.2 (twoPow_pos 1074)
  rw [hrounds]
  refine ⟨Nat.min_le_left _ _, fun other hother hne ↦ ?_⟩
  rw [distance_eq, distance_eq, div_lt_div_iff_of_pos_right hunit, div_left_inj' hunit.ne']
  rcases Nat.lt_or_ge infinity magnitude with hinfinite | hfinite
  · -- The quotient is above infinity, since a magnitude beyond infinity is nearer to it.
    rw [Nat.min_eq_left hinfinite.le] at hne ⊢
    have hbeyond : (scaled infinity : ℚ) < scaled magnitude := by
      exact_mod_cast scaled_strictMono hinfinite
    have hbelow : (scaled other : ℚ) < scaled infinity := by
      exact_mod_cast scaled_strictMono (hother.lt_of_ne hne)
    refine .inl (abs_sub_lt_abs_sub hbelow (not_lt.1 fun hless ↦ ?_))
    have hnearer := (hnearest hinfinite.ne).elim le_of_lt fun hsame ↦ hsame.1.le
    rw [abs_of_pos (sub_pos.2 hless), abs_of_pos (sub_pos.2 (hless.trans hbeyond))] at hnearer
    exact hbeyond.not_ge ((sub_le_sub_iff_right _).1 hnearer)
  · rw [Nat.min_eq_right hfinite] at hne ⊢
    exact hnearest hne

end Binary64

end Slang
