import Tabula.Decimal.Basic
import Tabula.Decimal.Binary

/-!
Decimal digits of a double by one multiplication with a power of ten kept to 64 bits. The double and
the ends of its interval are scaled by the same power; digits of the upper end are taken until what
is left is within the scaled interval, and the last digit is then moved toward the double. The
scaling is inexact, so the interval is narrowed by one unit on each side: the digits read back as
the double, but are not always the fewest or the nearest.
-/

namespace Tabula

namespace Binary

/-- Shifts the significand up to 64 bits. -/
def normalize (binary : Binary) : Binary :=
  let shift := 63 - Nat.log2 binary.significand
  ⟨binary.significand * twoTo shift, binary.exponent - shift⟩

/-- The middle between a double and the next one above. -/
def upperEnd (binary : Binary) : Binary := ⟨2 * binary.significand + 1, binary.exponent - 1⟩

/-- The middle between a double and the next one below. -/
def lowerEnd (binary : Binary) : Binary :=
  if binary.narrowBelow then ⟨4 * binary.significand - 1, binary.exponent - 2⟩
  else ⟨2 * binary.significand - 1, binary.exponent - 1⟩

/-- A power of ten rounded to 64 significant bits. -/
def powerOfTen (power : Int) : Binary :=
  match power with
  | .ofNat n =>
      let exact := tenTo n
      let bits := Nat.log2 exact
      if bits ≤ 63 then ⟨exact * twoTo (63 - bits), (bits : Int) - 63⟩
      else ⟨(exact + twoTo (bits - 64)) / twoTo (bits - 63), (bits : Int) - 63⟩
  | .negSucc past =>
      let divisor := tenTo (past + 1)
      let bits := 64 + Nat.log2 divisor
      ⟨(twoTo (bits + 1) + divisor) / (2 * divisor), -(bits : Int)⟩

/-- The upper 64 bits of a product of two 64-bit numbers, rounded. -/
def highProduct (left right : Nat) : Nat := (left * right + twoTo 63) / twoTo 64

/-- The multiple of eight decimal places by which a normalised number is scaled, so that its integer
part fits in 32 bits. -/
def scalePower (exponent : Int) : Int :=
  let wanted := 347 - Int.fdiv ((-61 - exponent) * -30103) 100000
  348 - 8 * (wanted / 8 + 1)

end Binary

/-- A scaled double: the upper end of its interval as a whole and a fractional part of
`fractionBits` bits, the width of the interval, and the distance of the double from the upper end.
-/
structure Scaled where
  whole : Nat
  fraction : Nat
  fractionBits : Nat
  width : Nat
  distance : Nat
  /-- The decimal place of the unit of `whole`. -/
  place : Int

namespace Scaled

/-- Scales a double. -/
def ofBinary (binary : Binary) : Scaled :=
  let upper := binary.upperEnd.normalize
  let lower := binary.lowerEnd
  let alignedLower := lower.significand * twoTo (lower.exponent - upper.exponent).toNat
  let power := Binary.scalePower upper.exponent
  let factor := Binary.powerOfTen (-power)
  let middle := Binary.highProduct binary.normalize.significand factor.significand
  let high := Binary.highProduct upper.significand factor.significand - 1
  let low := Binary.highProduct alignedLower factor.significand + 1
  let fractionBits := (-(upper.exponent + factor.exponent + 64)).toNat
  { whole := high / twoTo fractionBits
    fraction := high % twoTo fractionBits
    fractionBits
    width := high - low
    distance := high - middle
    place := power }

/-- Lowers the last digit while that brings the number nearer to the double and keeps it in the
interval. -/
def lowerLast (digits width unit distance : Nat) : Nat → Nat → Nat
  | 0, _ => digits
  | steps + 1, rest =>
      if rest < distance ∧ unit ≤ width - rest ∧
          (rest + unit < distance ∨ rest + unit - distance < distance - rest) then
        lowerLast (digits - 1) width unit distance steps (rest + unit)
      else digits

/-- Settles the last digit; each step moves by a unit and none goes past the distance. -/
def settle (digits width rest unit distance : Nat) : Nat :=
  lowerLast digits width unit distance (distance / unit + 1) rest

/-- Takes digits of the whole part, the leading one first, until the rest is within the interval. -/
def wholeDigits? (scaled : Scaled) : Nat → Option Decimal
  | 0 => none
  | places + 1 =>
      let rest := (scaled.whole % tenTo places) * twoTo scaled.fractionBits + scaled.fraction
      if rest ≤ scaled.width then
        some
          ⟨settle (scaled.whole / tenTo places) scaled.width rest
              (tenTo places * twoTo scaled.fractionBits) scaled.distance,
            scaled.place + places⟩
      else wholeDigits? scaled places

/-- Goes on with digits of the fractional part; `taken` counts them. Beyond eight of them the
distance is taken as zero. -/
def fractionDigits (scaled : Scaled) : Nat → Nat → Nat → Nat → Nat → Decimal
  | 0, digits, _, _, taken => ⟨digits, scaled.place - taken⟩
  | steps + 1, digits, fraction, width, taken =>
      let unit := twoTo scaled.fractionBits
      let digits := digits * 10 + fraction * 10 / unit
      let rest := fraction * 10 % unit
      let width := width * 10
      let taken := taken + 1
      if rest < width then
        let distance := if taken < 9 then scaled.distance * tenTo taken else 0
        ⟨settle digits width rest unit distance, scaled.place - taken⟩
      else fractionDigits scaled steps digits rest width taken

/-- The digits of a scaled double. The width grows tenfold with each digit of the fractional part,
so one more step than it has bits is never needed. -/
def decimal (scaled : Scaled) : Decimal :=
  (scaled.wholeDigits? (Nat.toDigits 10 scaled.whole).length).getD
    (scaled.fractionDigits (scaled.fractionBits + 1) scaled.whole scaled.fraction scaled.width 0)

end Scaled

/-- Digits that read back as this double, found by 64-bit scaling. -/
def Binary.scaledDecimal (binary : Binary) : Decimal := (Scaled.ofBinary binary).decimal

end Tabula
