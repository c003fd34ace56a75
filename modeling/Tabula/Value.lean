import Tabula.Error
import Tabula.Json.Basic
import Tabula.Decimal.Shortest

/-!
Values. All of them are plain data except structs: a struct is a cell of the heap, and two struct
values with one cell are the same struct. An action may carry the cell of the scope it was captured
in.
-/

namespace Tabula

/-- A storage cell, numbered in the order of allocation. -/
abbrev Cell : Type := Nat

/-- What a native function sees of an argument: all but what lies behind a cell. -/
inductive Argument where
  | number (value : Float)
  | string (text : String)
  | bool (truth : Bool)
  | struct
  | function (name : String)
  | action
  | void
  | error (text : String)

/-- What a native function answers. -/
inductive Reply where
  | number (value : Float)
  | string (text : String)
  | bool (truth : Bool)
  | void
  | error (text : String)
  /-- The argument at a position, itself and not a copy; void if there is none. -/
  | argument (position : Nat)
  /-- A new struct of elements keyed by position. -/
  | sequence (elements : List Reply)

/-- A function of the host: it takes and gives trees, or fails with a message. -/
abbrev HostFunction : Type := List Json → Except String Json

/-- What runs when a function is called. -/
inductive Code where
  | host (run : HostFunction)
  | native (run : List Argument → Except String Reply)

/-- A callable value. Its serial number, and not its name, tells it apart from others. -/
structure Function where
  name : String
  serial : Nat
  code : Code

/-- A block of statements, and the scope it was captured in, if any. Its label tells it apart from
others. -/
structure Action where
  label : Label
  body : List Node
  scope : Option Cell := none

/-- A value at run time. -/
inductive Value where
  | number (value : Float)
  | string (text : String)
  | bool (truth : Bool)
  | struct (cell : Cell)
  | function (function : Function)
  | action (action : Action)
  | void
  | error (text : String)

/-- The value of a constant. -/
def Constant.value : Constant → Value
  | number value => .number value
  | string text => .string text
  | bool truth => .bool truth
  | void => .void

namespace Value

/-- The type of a value. -/
def tag : Value → Tag
  | number _ => .number
  | string _ => .string
  | bool _ => .bool
  | struct _ => .struct
  | function _ => .function
  | action _ => .action
  | void => .void
  | error _ => .error

def isVoid : Value → Bool
  | void => true
  | _ => false

/-- The cell of a struct. -/
def cell? : Value → Option Cell
  | struct cell => some cell
  | _ => none

/-- The text of a string. -/
def string? : Value → Option String
  | string text => some text
  | _ => none

/-- The number of a number value. -/
def number? : Value → Option Float
  | number value => some value
  | _ => none

/-- The key that a value spells, if it has a textual form. -/
def key? : Value → Option String
  | string text => some text
  | number value => some (numberText value)
  | bool truth => some (if truth then "true" else "false")
  | _ => none

/-- What a native function sees of a value. -/
def toArgument : Value → Argument
  | number value => .number value
  | string text => .string text
  | bool truth => .bool truth
  | struct _ => .struct
  | function callee => .function callee.name
  | action _ => .action
  | void => .void
  | error text => .error text

/-- The value of a tree that came from outside: strings, numbers and booleans have one, all else is
void. -/
def ofJson : Json → Value
  | .string text => string text
  | .number value => number value.toFloat
  | .bool truth => bool truth
  | _ => void

/-- Whether two values are the same struct, action or function; no answer for other pairs. -/
def same? : Value → Value → Option Bool
  | struct left, struct right => some (left == right)
  | action left, action right => some (left.label == right.label)
  | function left, function right => some (left.serial == right.serial)
  | _, _ => none

end Value

end Tabula
