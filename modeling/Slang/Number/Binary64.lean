/-!
# Doubles as bit patterns

The magnitude of a double is its bit pattern without the sign bit. Finite magnitudes are compared
with exact fractions through their common denominator `2 ^ 1074`: a magnitude stands for
`scaled magnitude / 2 ^ 1074`, and `nearest` finds the magnitude closest to a fraction.
-/

namespace Slang

def twoPow (exponent : Nat) : Nat := Nat.pow 2 exponent

def tenPow (exponent : Nat) : Nat := Nat.pow 10 exponent

namespace Binary64

/-- The magnitude of the infinities. All larger patterns are not numbers. -/
def infinity : Nat := 0x7ff0000000000000

/-- The significand of a finite magnitude, with its leading bit. -/
def significand (magnitude : Nat) : Nat :=
  if magnitude < twoPow 52 then magnitude else twoPow 52 + magnitude % twoPow 52

/-- A finite magnitude in units of `2 ^ (-1074)`. -/
def scaled (magnitude : Nat) : Nat :=
  significand magnitude * twoPow (magnitude / twoPow 52 - 1)

/-- A quotient rounded to the nearest whole number, a half going to the even neighbour. -/
def roundedQuotient (numerator denominator : Nat) : Nat :=
  let quotient := numerator / denominator
  let twice := 2 * (numerator % denominator)
  if twice < denominator then quotient
  else if denominator < twice then quotient + 1
  else quotient + quotient % 2

/-- The magnitude nearest to a fraction, a half going to the even neighbour, and infinity when
the fraction is too large for a finite double. The shift drops the bits beyond the fifty-third;
adding the rounded significand to it carries into the exponent where rounding reaches the next
power of two. -/
def nearest (numerator denominator : Nat) : Nat :=
  let units := numerator * twoPow 1074
  let shift := (units / denominator).log2 - 52
  min infinity (shift * twoPow 52 + roundedQuotient units (denominator * twoPow shift))

example : nearest 1 1 = 0x3ff0000000000000 := by decide +kernel
example : nearest 1 10 = 0x3fb999999999999a := by decide +kernel
example : nearest (twoPow 53 + 1) 1 = nearest (twoPow 53) 1 := by decide +kernel
example : nearest (tenPow 309) 1 = infinity := by decide +kernel
example : nearest 1 (twoPow 1075) = 0 := by decide +kernel

end Binary64

end Slang
