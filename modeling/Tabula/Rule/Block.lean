import Tabula.Unfolding
import Tabula.Rule.Operand

/-!
The rules that run a block of statements, each time in a new scope: calls, conditionals and loops.
Calls of functions are here too.
-/

namespace Tabula

mutual

/-- The value of a native function's answer; a sequence is a new struct. -/
def Reply.toValue (arguments : List Value) : Reply → Run Value
  | .number value => return .number value
  | .string text => return .string text
  | .bool truth => return .bool truth
  | .void => return .void
  | .error text => return .error text
  | .argument position => return arguments.getD position .void
  | .sequence elements => do
      let values ← Reply.toValues arguments elements
      return .struct (← Run.alloc (Table.sequence values))

/-- The values of answers in order. -/
def Reply.toValues (arguments : List Value) : List Reply → Run (List Value)
  | [] => return []
  | reply :: rest => do
      let value ← reply.toValue arguments
      let values ← Reply.toValues arguments rest
      return value :: values

end

/-- Calls a function. Arguments of a host function leave as trees; if it fails, the value is an
error. A native function sees the values, and its failure is a failure of the call. -/
def Function.call (function : Function) (arguments : List Value) : Run Value :=
  match function.code with
  | .host run => do
      let heap ← Run.heap
      match run (arguments.map heap.toJson) with
      | .ok json => return .ofJson json
      | .error message =>
          return .error (String.join ["Executed function returned an error: ", message])
  | .native run =>
      match run (arguments.map Value.toArgument) with
      | .ok reply => reply.toValue arguments
      | .error message => Run.fail (.external message)

namespace Rule

variable (eval : Evaluator) (scope : Cell)

/-- The arguments of a function, in order: the evaluated entries of a template, the elements of a
struct, none for void, or a single value. -/
def positional (right : Node) : Run (List Value) :=
  match right with
  | .template entries => forAll (eval scope) (entries.map Prod.snd)
  | other => do
      match ← eval scope other with
      | .struct cell => return (← Run.read cell).values
      | .void => return []
      | value => return [value]

/-- The arguments of an action, by name: a template's table, a copy of a struct's, or none for void
and for a name that is not bound. -/
def named (right : Node) : Run (Table Value) := do
  match right with
  | .template entries => materialize eval scope entries
  | .atom name =>
      match ← Run.lookup scope name with
      | none => return []
      | some _ => ofValue (← eval scope right)
  | other => ofValue (← eval scope other)
where
  /-- The table of arguments that a value stands for. -/
  ofValue : Value → Run (Table Value)
    | .struct cell => Run.read cell
    | .void => return []
    | other => Run.fail (.typeMismatch (.arguments other.tag))

/-- Runs an action. What it captured is laid over its arguments, but not the value of an earlier
block; and the calling scope is at hand as a struct. -/
def invoke (action : Action) (bindings : Table Value) : Run Value := do
  let closure := (← captured action).filter fun entry => entry.1 ≠ Reserved.result
  let seed := (bindings.overlay closure).insert Reserved.caller (.struct scope)
  let inner ← block eval action.body seed
  returned inner

/-- Calls the function or action on the left. If it is neither, the arguments are not evaluated. -/
def call (left right : Node) : Run Value := do
  match ← eval scope left with
  | .function function => do
      let arguments ← positional eval scope right
      function.call arguments
  | .action action => do
      let bindings ← named eval scope right
      invoke eval scope action bindings
  | other => Run.fail (.call other.tag)

/-- Runs the action on the right, in a copy of the scope, unless the condition is void. -/
def branch (left right : Node) : Run Value := do
  let (condition, body) ← both eval scope left right
  if condition.isVoid then return .void
  else
    let action ← wantAction .branch body
    let _ ← block eval action.body (← Run.read scope)
    return .void

/-- Runs an action for elements in order, the first of them at the given position. Each run starts
in what the action captured as it stands then. -/
def loopFrom (action : Action) (position : Nat) : List Value → Run Unit
  | [] => return ()
  | element :: rest => do
      let seed := ((← captured action).insert Reserved.element element).insert Reserved.position
        (.number (Float.ofNat position))
      let _ ← block eval action.body seed
      loopFrom action (position + 1) rest

/-- Runs the action on the right for each element that the struct on the left has before the first
run. -/
def each (left right : Node) : Run Value := do
  let (sequence, body) ← both eval scope left right
  let action ← wantAction .each body
  match (← Run.heap).elements? sequence with
  | some elements => do
      loopFrom eval action 0 elements
      return .void
  | none => Run.fail (.typeMismatch (.iterate sequence.tag))

end Rule

end Tabula
