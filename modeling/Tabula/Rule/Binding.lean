import Tabula.Merge
import Tabula.Rule.Operand

/-!
The rules that write: binding a name, appending to a struct, assigning below a name, and leaving the
value of a block.
-/

namespace Tabula.Rule

variable (eval : Evaluator) (scope : Cell)

/-- Binds a name in the scope. -/
def bind (left right : Node) : Run Value :=
  match left with
  | .atom name => do
      let value ← eval scope right
      Run.bindName scope name value
      return .void
  | other => Run.fail (.structural (.expectedName other.kind))

/-- Appends a value to a struct in place. -/
def append (left right : Node) : Run Value := do
  let (target, value) ← both eval scope left right
  match target with
  | .struct cell => do
      Run.modifyHeap fun heap => heap.write cell ((heap.read cell).push value)
      return .void
  | other => wrongType .append .struct other

/-- The key at one step of an assignment: an atom's name, or the key that an accessor's value
spells. -/
def stepKey : Node → Run String
  | .atom name => return name
  | .accessor name => do
      let value ← eval scope (.accessor name)
      match value.key? with
      | some key => return key
      | none => Run.fail (.typeMismatch (.key value.tag))
  | other => Run.fail (.structural (.expectedField other.kind))

/-- Follows a chain of fields from its outermost step down to the root; `keys` are those so far,
last one first. -/
def targetFrom (keys : List String) : Node → Run Target
  | .expression (.operator symbol) left right =>
      if symbol = Operator.field.symbol then do
        let key ← stepKey eval scope right
        targetFrom (key :: keys) left
      else Run.fail (.structural .malformedPath)
  | .atom root =>
      if keys.isEmpty then Run.fail (.structural .malformedPath) else return ⟨root, keys.reverse⟩
  | _ => Run.fail (.structural .malformedPath)

/-- Assigns below a name. The value comes first and the target after it, so nothing is written
unless both are sound. -/
def assign (left right : Node) : Run Value := do
  let value ← eval scope right
  let target ← targetFrom eval scope [] left
  Run.modifyHeap (·.assign scope target value)
  return .void

/-- Leaves the value of the block. -/
def result (right : Node) : Run Value := do
  let value ← eval scope right
  Run.bindName scope Reserved.result value
  return .void

end Tabula.Rule
