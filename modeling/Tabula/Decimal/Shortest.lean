import Tabula.Decimal.Basic
import Tabula.Decimal.Binary

/-!
The fewest digits that read back as the same double. The reals that round to a double form an
interval, whose ends count when the significand is even. On the grids of one, two, … seventeen
digits in turn, the two points next to the double are tried; the first grid with a point inside
wins, and of two points the nearer, the upper one on a tie.
-/

namespace Tabula

/-- A double, its interval and one step of a decimal grid, as whole numbers over one common
denominator. -/
structure Grid where
  value : Nat
  low : Nat
  high : Nat
  step : Nat
  /-- The ends of the interval belong to it. -/
  closed : Bool

namespace Grid

/-- The grid of multiples of `10 ^ place` around a double. -/
def around (binary : Binary) (place : Int) : Grid :=
  let scale := twoTo binary.exponent.toNat * tenTo (-place).toNat
  let value := 4 * binary.significand * scale
  { value
    low := value - (if binary.narrowBelow then scale else 2 * scale)
    high := value + 2 * scale
    step := 4 * (twoTo (-binary.exponent).toNat * tenTo place.toNat)
    closed := binary.significand % 2 == 0 }

/-- Whether a point of the grid lies in the interval. -/
def accepts (grid : Grid) (digits : Nat) : Bool :=
  let point := digits * grid.step
  if grid.closed then grid.low ≤ point && point ≤ grid.high
  else grid.low < point && point < grid.high

/-- The nearer of the value's two neighbours that lie in the interval; the upper one on a tie. -/
def nearest? (grid : Grid) : Option Nat :=
  let below := grid.value / grid.step
  let above := below + 1
  match grid.accepts below, grid.accepts above with
  | true, true => if 2 * (grid.value % grid.step) < grid.step then some below else some above
  | true, false => some below
  | false, true => some above
  | false, false => none

end Grid

namespace Binary

/-- The place of the leading digit of a positive number. The estimate from the logarithm to base two
is right or one too small. -/
def leadingPlace (binary : Binary) : Int :=
  let estimate := Int.fdiv (binary.log2 * 30103) 100000
  let grid := Grid.around binary (estimate + 1)
  if grid.step ≤ grid.value then estimate + 1 else estimate

/-- The shortest decimal that reads back as this double. -/
def shortest (binary : Binary) : Decimal :=
  let leading := binary.leadingPlace
  let found := (List.range 17).findSome? fun further : Nat =>
    let place := leading - further
    (Grid.around binary place).nearest?.map fun digits => Decimal.mk digits place
  (found.getD ⟨0, 0⟩).trim

end Binary

/-- The text of a number: the shortest digits that read back, every place written out, and no point
after a whole number. -/
def numberText (x : Float) : String :=
  let sign := if signBit x then "-" else ""
  if x.isNaN then "NaN"
  else if x.isInf then sign ++ "inf"
  else if x == 0.0 then sign ++ "0"
  else sign ++ (Binary.ofFloat x).shortest.positional

end Tabula
