import Slang.Number.Binary64

/-!
# Shortest decimals

Among the decimals that read back as a given double, `shortest` picks one with the fewest digits,
and of those the one closest to the double.
-/

namespace Slang

/-- The number `coefficient * 10 ^ exponent`. -/
structure Decimal where
  coefficient : Nat
  exponent : Int
  deriving Repr, DecidableEq

namespace Decimal

/-- The magnitude of the double nearest to a decimal. -/
def nearest (decimal : Decimal) : Nat :=
  Binary64.nearest (decimal.coefficient * tenPow decimal.exponent.toNat)
    (tenPow (-decimal.exponent).toNat)

/-- Whether a decimal reads back as the given magnitude. -/
def ReadsAs (decimal : Decimal) (magnitude : Nat) : Prop :=
  decimal.nearest = magnitude

instance (decimal : Decimal) (magnitude : Nat) : Decidable (decimal.ReadsAs magnitude) :=
  inferInstanceAs (Decidable (decimal.nearest = magnitude))

/-- The places behind the point at which even the smallest double has eighteen digits. -/
def finestPlaces : Nat := 341

/-- The number of decimal digits of a positive number. The logarithm of two is a little less than
`0.30103`, so the estimate from the binary length misses at most one digit. -/
def digitCount (number : Nat) : Nat :=
  let estimate := number.log2 * 30103 / 100000
  if tenPow (estimate + 1) ≤ number then estimate + 2 else estimate + 1

/-- A finite magnitude in units of `10 ^ (-341)`, rounded down. -/
def fineUnits (magnitude : Nat) : Nat :=
  Binary64.scaled magnitude * tenPow finestPlaces / twoPow 1074

/-- The decimal that reads back as a magnitude when all but the last `dropped` digits of its fine
units are kept, if one of the two neighbours with those digits does. If both do, it is the closer
one, the larger if neither is closer. -/
def droppingDigits? (magnitude fine dropped : Nat) : Option Decimal :=
  let unit := tenPow dropped
  let below : Decimal := ⟨fine / unit, (dropped : Int) - finestPlaces⟩
  let above : Decimal := ⟨fine / unit + 1, (dropped : Int) - finestPlaces⟩
  if below.ReadsAs magnitude then
    if unit ≤ 2 * (fine % unit) ∧ above.ReadsAs magnitude then some above else some below
  else if above.ReadsAs magnitude then some above
  else none

theorem readsAs_of_droppingDigits? {magnitude fine dropped : Nat} {decimal : Decimal}
    (h : droppingDigits? magnitude fine dropped = some decimal) : decimal.ReadsAs magnitude := by
  simp only [droppingDigits?] at h
  split at h
  · rename_i hbelow
    split at h
    · rename_i habove
      cases h
      exact habove.2
    · cases h
      exact hbelow
  · split at h
    · rename_i habove
      cases h
      exact habove
    · cases h

/-- All digits of a finite magnitude. -/
def exact (magnitude : Nat) : Decimal :=
  ⟨Binary64.scaled magnitude * Nat.pow 5 1074, -1074⟩

/-- The shortest decimal that reads back as a finite magnitude. Seventeen digits are enough to
tell any two doubles apart. -/
def shortest (magnitude : Nat) : Decimal :=
  let fine := fineUnits magnitude
  let length := digitCount fine
  ((List.range' 1 17).findSome? fun count ↦
    droppingDigits? magnitude fine (length - count)).getD (exact magnitude)

/-- The digits of a decimal without the zeros at its end. -/
def digits (decimal : Decimal) : List Char :=
  ((Nat.toDigits 10 decimal.coefficient).reverse.dropWhile (· == '0')).reverse

/-- The number of digits in front of the point, negative for zeros behind it. -/
def point (decimal : Decimal) : Int :=
  (Nat.toDigits 10 decimal.coefficient).length + decimal.exponent

end Decimal

end Slang
