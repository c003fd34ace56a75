import Tabula.Equality
import Tabula.Rule.Operand

/-!
The rules that compute a value from two operands: arithmetic, comparison, reading of fields, capture
of a scope, and construction.
-/

namespace Tabula.Rule

variable (eval : Evaluator) (scope : Cell)

/-- The sum of two numbers, or their difference, or the negative of one number on the right. -/
def arithmetic (operator : Operator) (left right : Node) : Run Value := do
  let (x, y) ← both eval scope left right
  match operator, x, y with
  | .subtract, .void, .number y => return .number (-y)
  | .subtract, .void, y => Run.fail (.typeMismatch (.unary y.tag operator))
  | .add, .number x, .number y => return .number (x + y)
  | _, .number x, .number y => return .number (x - y)
  | _, x, y => Run.fail (.typeMismatch (.binary x.tag y.tag operator))

/-- Whether two values of one type are equal, or differ. -/
def equality (operator : Operator) (left right : Node) : Run Value := do
  let (x, y) ← both eval scope left right
  if x.tag = y.tag then
    match (← Run.heap).equal? x y with
    | some answer => return .bool (answer == (operator == .equal))
    | none => Run.unfinished
  else Run.fail (.typeMismatch (.binary x.tag y.tag operator))

/-- The value under a key; void if the key has no textual form. -/
def fieldUnder (target key : Value) : Run Value := do
  match key.key? with
  | some name => return (← Run.heap).field target name
  | none => return .void

/-- Reads the field that an atom names, or whose key an accessor holds. -/
def field (left right : Node) : Run Value :=
  match right with
  | .atom key => do
      let target ← eval scope left
      return (← Run.heap).field target key
  | .accessor _ => do
      let (target, key) ← both eval scope left right
      fieldUnder target key
  | other => Run.fail (.structural (.expectedField other.kind))

/-- Reads the field under the key on the left. -/
def keyRead (left right : Node) : Run Value := do
  let (key, target) ← both eval scope left right
  fieldUnder target key

/-- Binds the action on the right to the scope, which is shared and not copied. -/
def capture (left right : Node) : Run Value := do
  let (_, value) ← both eval scope left right
  let action ← wantAction .capture value
  return .action { action with scope := some scope }

/-- Makes a new value of a named type; structs are the only ones. -/
def construct (right : Node) : Run Value :=
  match right.name? with
  | some "Struct" => .struct <$> Run.alloc []
  | some other => Run.fail (.structural (.unknownType other))
  | none => Run.fail (.structural (.expectedName right.kind))

end Tabula.Rule
