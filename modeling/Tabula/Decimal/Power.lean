/-!
Powers of two and of ten.
-/

namespace Tabula

/-- A power of two. -/
def twoTo (exponent : Nat) : Nat := 1 <<< exponent

/-- A power of ten. -/
def tenTo : Nat → Nat
  | 0 => 1
  | exponent + 1 => 10 * tenTo exponent

end Tabula
