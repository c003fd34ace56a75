import Tabula.Decimal.Power

/-!
Finite doubles as whole numbers times powers of two.
-/

namespace Tabula

/-- The number `significand · 2 ^ exponent`. -/
structure Binary where
  significand : Nat
  exponent : Int
deriving DecidableEq, Repr

namespace Binary

/-- The magnitude of a finite double, read off its bits. -/
def ofFloat (x : Float) : Binary :=
  let magnitude := x.toBits.toNat % twoTo 63
  let biased : Nat := magnitude / twoTo 52
  let fraction : Nat := magnitude % twoTo 52
  if biased = 0 then ⟨fraction, -1074⟩ else ⟨fraction + twoTo 52, (biased : Int) - 1075⟩

/-- At a power of two the next double below is only half as far away as the next one above. -/
def narrowBelow (binary : Binary) : Bool := binary.significand == twoTo 52

/-- The integer part of the logarithm to base two of a positive number. -/
def log2 (binary : Binary) : Int := (Nat.log2 binary.significand : Int) + binary.exponent

end Binary

/-- Whether the sign bit of a double is set; it is for negative zero. -/
def signBit (x : Float) : Bool := x.toBits.toNat ≥ twoTo 63

end Tabula
