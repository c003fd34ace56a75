import Tabula.Library.Arithmetic
import Tabula.Text.Case

/-!
Functions of the host on strings.
-/

namespace Tabula.Library

/-- A function of the first argument. -/
def onString (apply : String → Json) : HostFunction := fun arguments => do
  return apply (← stringAt arguments 0)

/-- All arguments one after another. -/
def concat : HostFunction := fun arguments => do
  let parts ← (List.range arguments.length).mapM (stringAt arguments)
  return .string (String.join parts)

/-- A text written so many times. However often it is written, the empty text stays empty. -/
def timesText (text : String) (count : Nat) : String :=
  if text.isEmpty then "" else String.join (List.replicate count text)

/-- The first argument as often as the second says, which has to be a whole number and not negative.
-/
def repeated : HostFunction := fun arguments => do
  let text ← stringAt arguments 0
  let count ← numberAt arguments 1
  if count < 0.0 || count - count.floor != 0.0 then
    throw (String.join ["can't repeat a string ", numberText count, " times"])
  else return .string (timesText text count.toUInt64.toNat)

/-- The functions on strings by name. Lengths count characters. -/
def strings : Table HostFunction :=
  [ ("upper", onString fun text => .string (Text.upper text)),
    ("lower", onString fun text => .string (Text.lower text)),
    ("length", onString fun text => numberResult (Float.ofNat text.length)),
    ("concat", concat), ("repeat", repeated) ]

end Tabula.Library
