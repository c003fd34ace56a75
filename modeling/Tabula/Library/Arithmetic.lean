import Tabula.Value

/-!
Functions of the host on numbers, and how host functions read their arguments.
-/

namespace Tabula.Library

/-- The number at a position of the arguments. -/
def numberAt (arguments : List Json) (position : Nat) : Except String Float :=
  match arguments[position]? with
  | some (.number value) => .ok value.toFloat
  | some _ => .error (String.join ["argument ", Nat.repr (position + 1), " should be a number"])
  | none => .error (String.join ["missing argument ", Nat.repr (position + 1)])

/-- The string at a position of the arguments. -/
def stringAt (arguments : List Json) (position : Nat) : Except String String :=
  match arguments[position]? with
  | some (.string text) => .ok text
  | some _ => .error (String.join ["argument ", Nat.repr (position + 1), " should be a string"])
  | none => .error (String.join ["missing argument ", Nat.repr (position + 1)])

/-- The tree of a number. -/
def numberResult (x : Float) : Json := .number (.ofFloat x)

/-- A function of the first argument. -/
def unary (apply : Float → Float) : HostFunction := fun arguments => do
  return numberResult (apply (← numberAt arguments 0))

/-- The square root; a number below zero has none. -/
def squareRoot : HostFunction := fun arguments => do
  let x ← numberAt arguments 0
  if x < 0.0 then throw (String.join ["square root of negative number ", numberText x])
  else return numberResult x.sqrt

/-- The first argument to the power of the second. -/
def power : HostFunction := fun arguments => do
  let base ← numberAt arguments 0
  let exponent ← numberAt arguments 1
  return numberResult (Float.pow base exponent)

/-- Chooses among all arguments, two at a time from the first on. -/
def choose (pick : Float → Float → Float) : HostFunction := fun arguments => do
  let first ← numberAt arguments 0
  let chosen ← (List.range' 1 (arguments.length - 1)).foldlM
    (fun chosen position => do return pick chosen (← numberAt arguments position)) first
  return numberResult chosen

/-- The lesser of two numbers; what is no number gives way to the other. -/
def lesser (x y : Float) : Float := if x.isNaN then y else if y < x then y else x

/-- The greater of two numbers; what is no number gives way to the other. -/
def greater (x y : Float) : Float := if x.isNaN then y else if x < y then y else x

/-- The functions on numbers by name. -/
def arithmetic : Table HostFunction :=
  [ ("floor", unary Float.floor), ("ceil", unary Float.ceil), ("abs", unary Float.abs),
    ("sqrt", squareRoot), ("pow", power), ("min", choose lesser), ("max", choose greater) ]

end Tabula.Library
