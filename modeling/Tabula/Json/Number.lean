import Tabula.Decimal.Scaled

/-!
Numbers of the data format: a sign, a mantissa of at most 64 bits and a power of ten. A number keeps
the digits it was written with. Reading it as a double multiplies by one power of ten, or divides,
and is not rounded correctly in general; a double is written with the digits that 64-bit scaling
finds.
-/

namespace Tabula.Json

/-- A number as it is written. What is no number, or infinite, is `undefined`. -/
inductive Number where
  | undefined
  | finite (negative : Bool) (mantissa : Nat) (exponent : Int)
deriving DecidableEq, Repr

namespace Number

/-- A power of ten as a double: exact while there is an exact one, else as the machine's power
function gives it. -/
def powerOfTen (exponent : Nat) : Float :=
  if exponent < 23 then Float.ofNat (tenTo exponent) else Float.pow 10.0 (Float.ofNat exponent)

/-- Scales a double by a power of ten. -/
def scale (x : Float) (exponent : Int) : Float :=
  if exponent < 0 then x / powerOfTen exponent.natAbs else x * powerOfTen exponent.natAbs

/-- The double that a number is read as. Exponents below -308 take two steps. -/
def toFloat : Number → Float
  | undefined => Float.ofBits 0x7ff8000000000000
  | finite negative mantissa exponent =>
      let whole := mantissa.toUInt64.toFloat
      let magnitude :=
        if exponent < -308 then scale (scale whole (exponent + 308)) (-308)
        else scale whole exponent
      if negative then -magnitude else magnitude

/-- The number that a double is written as: no zero ends its fraction. -/
def ofFloat (x : Float) : Number :=
  if x.isNaN || x.isInf then undefined
  else if x == 0.0 then finite (signBit x) 0 0
  else
    let decimal := (Binary.ofFloat x).scaledDecimal.trim
    finite (signBit x) decimal.digits decimal.exponent

/-- A whole number. -/
def ofNat (n : Nat) : Number := finite false n 0

/-- Digits with a point after the first one. -/
def pointed : List Char → String
  | first :: next :: rest => String.ofList (first :: '.' :: next :: rest)
  | short => String.ofList short

/-- The exponent after the digits of a long fraction: none when it is zero, and always signed. -/
def signedPower (exponent : Int) : String :=
  if exponent = 0 then ""
  else String.join [if exponent < 0 then "e-" else "e+", Nat.repr exponent.natAbs]

/-- The text of a number. Fractions of fewer than 18 places and whole numbers of at most 20 digits
are written out; other numbers have an exponent, which is signed for fractions only. -/
def text : Number → String
  | undefined => "null"
  | finite negative mantissa exponent =>
      let decimal := Decimal.mk mantissa exponent
      let digits := decimal.digitChars
      let leading := exponent + (digits.length : Int) - 1
      let magnitude :=
        if mantissa = 0 then "0"
        else if exponent ≤ -18 then pointed digits ++ signedPower leading
        else if exponent ≤ 0 || leading < 20 then decimal.positional
        else String.join [pointed digits, "e", Nat.repr leading.natAbs]
      (if negative then "-" else "") ++ magnitude

end Number

end Tabula.Json
