/-!
Decimal numbers as whole digits and a power of ten, and their text without an exponent.
-/

namespace Tabula

/-- The number `digits · 10 ^ exponent`. -/
structure Decimal where
  digits : Nat
  exponent : Int
deriving DecidableEq, Repr

namespace Decimal

/-- Takes the zeros off the end of a fraction of so many places. -/
def trimPlaces (digits : Nat) : Nat → Nat × Nat
  | 0 => (digits, 0)
  | places + 1 => if digits % 10 = 0 then trimPlaces (digits / 10) places else (digits, places + 1)

/-- The same number with no zero at the end of its fraction. A whole number keeps its zeros. -/
def trim (decimal : Decimal) : Decimal :=
  match decimal.exponent with
  | .ofNat _ => decimal
  | .negSucc past =>
      let (digits, places) := trimPlaces decimal.digits (past + 1)
      ⟨digits, -(places : Int)⟩

/-- The digits in base ten, leading digit first; zero is one digit. -/
def digitChars (decimal : Decimal) : List Char := Nat.toDigits 10 decimal.digits

/-- Writes every place out: zeros up to the unit, or a point with at least one digit before it. -/
def positional (decimal : Decimal) : String :=
  match decimal.exponent with
  | .ofNat zeros => String.ofList (decimal.digitChars ++ List.replicate zeros '0')
  | .negSucc past =>
      let places := past + 1
      let missing := places + 1 - decimal.digitChars.length
      let padded := List.replicate missing '0' ++ decimal.digitChars
      let whole := padded.length - places
      String.ofList (padded.take whole ++ '.' :: padded.drop whole)

end Decimal

end Tabula
