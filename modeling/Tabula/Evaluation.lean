import Tabula.Rule.Binding
import Tabula.Rule.Block
import Tabula.Rule.Exchange
import Tabula.Rule.Operation

/-!
Evaluation. `step` says what a node means, given an evaluator for what lies inside it; `evaluate`
nests steps up to a depth. What finishes within a depth gives the same outcome within every greater
one.
-/

namespace Tabula.Interpreter

variable (interpreter : Interpreter)

/-- Applies the rule of an operator. -/
def apply (eval : Evaluator) (scope : Cell) (operator : Operator) (left right : Node) : Run Value :=
  match operator with
  | .bind => Rule.bind eval scope left right
  | .add => Rule.arithmetic eval scope .add left right
  | .subtract => Rule.arithmetic eval scope .subtract left right
  | .equal => Rule.equality eval scope .equal left right
  | .notEqual => Rule.equality eval scope .notEqual left right
  | .field => Rule.field eval scope left right
  | .keyRead => Rule.keyRead eval scope left right
  | .capture => Rule.capture eval scope left right
  | .call => Rule.call eval scope left right
  | .branch => Rule.branch eval scope left right
  | .each => Rule.each eval scope left right
  | .append => Rule.append eval scope left right
  | .assign => Rule.assign eval scope left right
  | .construct => Rule.construct right
  | .declareModule => Rule.declareModule scope right
  | .exportModule => Rule.exportModule eval scope right
  | .importModule => Rule.importModule interpreter eval scope right
  | .requireForeign => Rule.requireForeign interpreter right
  | .print => Rule.print interpreter eval scope right
  | .result => Rule.result eval scope right

/-- The operator that the operator node of an expression spells. -/
def operatorOf : Node → Run Operator
  | .operator symbol =>
      match Operator.ofSymbol? symbol with
      | some operator => pure operator
      | none => Run.fail (.structural (.unknownOperator symbol))
  | other => Run.fail (.structural (.notAnOperator other.kind))

/-- The meaning of a node. A name that is not bound stands for itself. -/
def step (eval : Evaluator) : Evaluator := fun scope node =>
  match node with
  | .expression applied left right => do
      let operator ← operatorOf applied
      Run.tagged operator (interpreter.apply eval scope operator left right)
  | .atom name | .accessor name => return (← Run.lookup scope name).getD (.string name)
  | .constant value => return value.value
  | .action label body => return .action { label, body }
  | .template entries => do
      let table ← Rule.materialize eval scope entries
      return .struct (← Run.alloc table)
  | .operator symbol => Run.fail (.structural (.strayOperator symbol))

/-- Evaluates a node with so many levels of nesting. -/
def evaluate : Nat → Evaluator
  | 0 => fun _ _ => Run.unfinished
  | depth + 1 => interpreter.step (evaluate depth)

/-- Runs a program in a copy of a scope, and gives that copy. -/
def execute (program : Program) (initial : Cell) : Run Cell :=
  Rule.program (interpreter.evaluate interpreter.depth) program initial

/-- Runs a program in a copy of a scope; an error comes out rendered. -/
def run (program : Program) (initial : Cell) : Run Cell :=
  Run.rendered (interpreter.execute program initial)

/-- An expression applies the rule of the operator that its symbol spells. -/
theorem evaluate_operator (depth : Nat) (scope : Cell) (operator : Operator) (left right : Node) :
    interpreter.evaluate (depth + 1) scope
        (.expression (.operator operator.symbol) left right) =
      Run.tagged operator
        (interpreter.apply (interpreter.evaluate depth) scope operator left right) := by
  have spelled : operatorOf (.operator operator.symbol) = pure operator := by
    simp only [operatorOf, Operator.ofSymbol?_symbol]
  simp only [evaluate, step, spelled]
  rfl

end Tabula.Interpreter
