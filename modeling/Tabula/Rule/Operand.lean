import Tabula.Reserved
import Tabula.Run

/-!
How rules evaluate their operands. A rule is given the evaluator for what lies inside it, so the
rules themselves do not recurse. Operands that belong together are all evaluated, in order, even if
an earlier one failed; then the first failure in order wins.
-/

namespace Tabula

/-- Evaluates a node in a scope. -/
abbrev Evaluator : Type := Cell → Node → Run Value

namespace Rule

variable (eval : Evaluator) (scope : Cell)

/-- Evaluates both operands, left before right. -/
def both (left right : Node) : Run (Value × Value) := do
  let leftOutcome ← Run.attempt (eval scope left)
  let rightOutcome ← Run.attempt (eval scope right)
  return (← Run.ofExcept leftOutcome, ← Run.ofExcept rightOutcome)

/-- Evaluates an entry of a template. An atom stands for its own name there. -/
def entry : Node → Run Value
  | .atom name => return .string name
  | node => eval scope node

/-- Runs a step for each item in order, also after a failure, and fails if any of them did. -/
def forAll {α β : Type} (step : α → Run β) (items : List α) : Run (List β) := do
  let outcomes ← items.mapM fun item => Run.attempt (step item)
  outcomes.mapM Run.ofExcept

/-- Builds the table that a template describes. -/
def materialize (template : List (String × Node)) : Run (Table Value) := do
  let values ← forAll (entry eval scope) (template.map Prod.snd)
  return Table.ofList ((template.map Prod.fst).zip values)

/-- Runs statements in order up to the first failure. -/
def statements (body : List Node) : Run Unit := body.forM fun node => discard (eval scope node)

/-- Runs statements in a new scope that holds the given bindings. -/
def block (body : List Node) (bindings : Table Value) : Run Cell := do
  let inner ← Run.alloc bindings
  statements eval inner body
  return inner

/-- What `return` left in a scope, or void. -/
def returned (scope : Cell) : Run Value := return (← Run.lookup scope Reserved.result).getD .void

/-- The table that an action was captured with; empty if it was not captured. -/
def captured (action : Action) : Run (Table Value) :=
  match action.scope with
  | some cell => Run.read cell
  | none => pure []

/-- Fails because an operator needs another type of operand. -/
def wrongType {α : Type} (operator : Operator) (wanted : Tag) (received : Value) : Run α :=
  Run.fail (.typeMismatch (.expected operator wanted received.tag))

/-- The action that an operator needs. -/
def wantAction (operator : Operator) : Value → Run Action
  | .action action => pure action
  | other => wrongType operator .action other

end Rule

end Tabula
