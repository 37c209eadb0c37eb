import Slang.Number.Decimal

/-!
# Numbers as text

Numerals are read as the nearest double. Numbers are written with the fewest digits that read
back: positionally from `0.000001` up to, and not including, the twenty-first power of ten, and
with an exponent outside that range.
-/

namespace Slang.Number

/-- The double nearest to `coefficient / 10 ^ places`. -/
def ofDecimal (coefficient places : Nat) : Float :=
  Float.ofBits (UInt64.ofNat (Binary64.nearest coefficient (tenPow places)))

/-- The magnitudes that are written without an exponent. -/
def isPlain (magnitude : Nat) : Bool :=
  Binary64.nearest 1 (tenPow 6) ≤ magnitude && magnitude < Binary64.nearest (tenPow 21) 1

/-- Digits around a decimal point, filled up with zeros on either side. -/
def positional (decimal : Decimal) : List Char :=
  let digits := decimal.digits
  let point := decimal.point.toNat
  if decimal.point ≤ 0 then '0' :: '.' :: (List.replicate (-decimal.point).toNat '0' ++ digits)
  else if digits.length ≤ point then digits ++ List.replicate (point - digits.length) '0'
  else digits.take point ++ '.' :: digits.drop point

/-- One digit, the others behind a point, and the power of ten with its sign. -/
def scientific (decimal : Decimal) : List Char :=
  let power := decimal.point - 1
  let fraction := decimal.digits.drop 1
  decimal.digits.take 1 ++ (if fraction.isEmpty then [] else '.' :: fraction) ++
    'e' :: (if power < 0 then '-' else '+') :: Nat.toDigits 10 power.natAbs

/-- The text of a finite magnitude. -/
def magnitudeText (magnitude : Nat) : List Char :=
  if magnitude = 0 then ['0']
  else if isPlain magnitude then positional (Decimal.shortest magnitude)
  else scientific (Decimal.shortest magnitude)

/-- The text of a number. Both zeros are written alike. -/
def format (number : Float) : String :=
  let bits := number.toBits.toNat
  let magnitude := bits % twoPow 63
  let negative := decide (twoPow 63 ≤ bits)
  if Binary64.infinity < magnitude then "NaN"
  else if magnitude = Binary64.infinity then if negative then "-Infinity" else "Infinity"
  else if negative && magnitude != 0 then String.ofList ('-' :: magnitudeText magnitude)
  else String.ofList (magnitudeText magnitude)

end Slang.Number
