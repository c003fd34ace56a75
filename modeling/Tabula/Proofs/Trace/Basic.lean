import Tabula.Proofs.Depth
import Tabula.Proofs.Isolation
import Tabula.Proofs.Operands

/-!
# How evaluations nest

Under an expression, its operator's rule evaluates operands, and it may run a block: the body of an
action, or the statements of a program that is imported. Each of these evaluations begins in a scope
and a state of its own. The entries of a template are nested in it without any operator in between.

A list of operators spells how a failure is nested in a node, if each of them belongs to an
expression that is found, through the entries of templates only, under the expression of the one
before it.
-/

namespace Tabula

namespace Operator

/-- The operators whose rules evaluate what stands to their left, and do so first. -/
def evaluatesLeft : Operator → Bool
  | add | subtract | equal | notEqual | field | keyRead | capture | call | branch | each | append =>
      true
  | _ => false

/-- The operators whose rules may evaluate what stands to their right. -/
def evaluatesRight : Operator → Bool
  | construct | declareModule | importModule | requireForeign => false
  | _ => true

end Operator

namespace Interpreter

variable (interpreter : Interpreter)

/-- Nodes are evaluated one after another in a scope, also after a failure. -/
inductive Leads (scope : Cell) : List Node → State → State → Prop
  | nil (state : State) : Leads scope [] state state
  | cons {node : Node} {rest : List Node} {state between after : State}
      {outcome : Except Error Value} :
      interpreter.Ends scope node state outcome between →
      Leads scope rest between after →
      Leads scope (node :: rest) state after

/-- A block is entered with some bindings, the statements before one of its statements succeed, and
that statement is evaluated next. -/
def Enters (body : List Node) (bindings : Table Value) (entered : State) (inner : Cell)
    (statement : Node) (between : State) : Prop :=
  ∃ depth before after, body = before ++ statement :: after ∧ inner = entered.heap.size ∧
    (Rule.statements (interpreter.evaluate depth) inner before).from?
        { entered with heap := (entered.heap.alloc bindings).2 } = some (.ok (), between)

/-- The rule of an operator, applied in a scope and a state, runs a block with some bindings. -/
inductive RunsBlock (scope : Cell) (left right : Node) (state : State) :
    Operator → List Node → Table Value → State → Prop
  | called {depth : Nat} {action : Action} {arguments closure : Table Value}
      {between entered : State} :
      interpreter.Ends scope left state (.ok (.action action)) between →
      (Rule.named (interpreter.evaluate depth) scope right).from? between =
        some (.ok arguments, entered) →
      (Rule.captured action).from? entered = some (.ok closure, entered) →
      RunsBlock scope left right state .call action.body
        ((arguments.overlay (closure.filter fun entry => entry.1 ≠ Reserved.result)).insert
          Reserved.caller (.struct scope)) entered
  | branched {condition : Value} {action : Action} {between entered : State} :
      interpreter.Ends scope left state (.ok condition) between →
      interpreter.Ends scope right between (.ok (.action action)) entered →
      ¬ condition.isVoid →
      RunsBlock scope left right state .branch action.body (entered.heap.read scope) entered
  | looped {depth : Nat} {sequence element : Value} {earlier later : List Value}
      {action : Action} {closure : Table Value} {between begun entered : State} :
      interpreter.Ends scope left state (.ok sequence) between →
      interpreter.Ends scope right between (.ok (.action action)) begun →
      begun.heap.elements? sequence = some (earlier ++ element :: later) →
      (Rule.loopFrom (interpreter.evaluate depth) action 0 earlier).from? begun =
        some (.ok (), entered) →
      (Rule.captured action).from? entered = some (.ok closure, entered) →
      RunsBlock scope left right state .each action.body
        ((closure.insert Reserved.element element).insert Reserved.position
          (.number (Float.ofNat earlier.length))) entered
  | imported {path : String} {statements : Program} :
      (Rule.importPath interpreter.config right).from? state = some (.ok path, state) →
      interpreter.loader state.supply path = .ok statements →
      RunsBlock scope left right state .importModule statements [] state.entered

/-- The rule of an operator, applied in a scope and a state, evaluates a node in a scope and a
state: an operand, or a statement of a block that it runs. -/
inductive Under (scope : Cell) (operator : Operator) (left right : Node) (state : State) :
    Cell → Node → State → Prop
  | left : operator.evaluatesLeft → Under scope operator left right state scope left state
  | right {between : State} :
      operator.evaluatesRight →
      interpreter.Leads scope (if operator.evaluatesLeft then [left] else []) state between →
      Under scope operator left right state scope right between
  | statement {body : List Node} {bindings : Table Value} {inner : Cell} {node : Node}
      {entered between : State} :
      interpreter.RunsBlock scope left right state operator body bindings entered →
      interpreter.Enters body bindings entered inner node between →
      Under scope operator left right state inner node between

/-- Operators, outermost first, spell how a failure for a reason is nested in a node that is
evaluated in a scope and a state. Without any operator, the node is malformed in a way that the
reason names, or such a node is an entry of it. Otherwise the first operator is that of the node,
or of an entry of it; its rule fails with what the others spell, or raises the error itself. -/
inductive Spells : Cell → Node → State → List Operator → Reason → Prop
  | stray {scope : Cell} {state : State} (symbol : String) :
      Spells scope (.operator symbol) state [] (.structural (.strayOperator symbol))
  | notAnOperator {scope : Cell} {applied left right : Node} {state : State} :
      (∀ symbol, applied ≠ .operator symbol) →
      Spells scope (.expression applied left right) state []
        (.structural (.notAnOperator applied.kind))
  | unknownOperator {scope : Cell} {symbol : String} {left right : Node} {state : State} :
      Operator.ofSymbol? symbol = none →
      Spells scope (.expression (.operator symbol) left right) state []
        (.structural (.unknownOperator symbol))
  | entry {scope : Cell} {before after : List (String × Node)} {key : String} {node : Node}
      {state between : State} {trace : List Operator} {reason : Reason} :
      interpreter.Leads scope (before.map Prod.snd) state between →
      Spells scope node between trace reason →
      Spells scope (.template (before ++ (key, node) :: after)) state trace reason
  | own {depth : Nat} {scope : Cell} {operator : Operator} {left right : Node}
      {state after : State} {reason : Reason} :
      (interpreter.apply (interpreter.evaluate depth) scope operator left right).from? state =
        some (.error (Error.ofReason reason), after) →
      Spells scope (.expression (.operator operator.symbol) left right) state [operator] reason
  | under {depth : Nat} {scope inner : Cell} {operator : Operator} {left right node : Node}
      {state between after : State} {trace : List Operator} {reason : Reason} :
      (interpreter.apply (interpreter.evaluate depth) scope operator left right).from? state =
        some (.error { reason := some reason, locations := trace.reverse }, after) →
      interpreter.Under scope operator left right state inner node between →
      Spells inner node between trace reason →
      Spells scope (.expression (.operator operator.symbol) left right) state (operator :: trace)
        reason

/-- The error has a reason, no text yet, and a trace that spells how it is nested in the node. -/
def Explains (scope : Cell) (node : Node) (state : State) (error : Error) : Prop :=
  ∃ reason, error.reason = some reason ∧ reason ≠ .unknown ∧ error.rendered = none ∧
    interpreter.Spells scope node state error.locations.reverse reason

/-- The error is raised by the rule of the operator itself, or by an evaluation under it. -/
def Blames (scope : Cell) (operator : Operator) (left right : Node) (state : State)
    (error : Error) : Prop :=
  (∃ reason, reason ≠ .unknown ∧ error = Error.ofReason reason) ∨
    ∃ inner node between, interpreter.Under scope operator left right state inner node between ∧
      interpreter.Explains inner node between error

end Interpreter

/-! ## Steps that fail as they should -/

namespace Run

variable {α β : Type} {state : State} {wanted : Error → Prop}

/-- Whenever the step fails from the state, its error is as wanted. -/
def Fails (state : State) (run : Run α) (wanted : Error → Prop) : Prop :=
  ∀ error after, run.from? state = some (.error error, after) → wanted error

namespace Fails

theorem pure (value : α) : Fails state (Pure.pure value) wanted :=
  fun _ _ failed => nomatch failed

theorem unfinished : Fails state (Run.unfinished : Run α) wanted :=
  fun _ _ failed => nomatch failed

theorem fail {reason : Reason} (wantedReason : wanted (Error.ofReason reason)) :
    Fails state (Run.fail reason : Run α) wanted := by
  intro error after failed
  cases failed
  exact wantedReason

theorem mono {run : Run α} {unwanted : Error → Prop} (fails : Fails state run unwanted)
    (weaken : ∀ error, unwanted error → wanted error) : Fails state run wanted :=
  fun error after failed => weaken error (fails error after failed)

/-- A sequence fails as it should if its first step does, and its second one from wherever the first
one succeeds. -/
theorem bind {run : Run α} {next : α → Run β} (first : Fails state run wanted)
    (second : ∀ value between, run.from? state = some (.ok value, between) →
      Fails between (next value) wanted) : Fails state (run >>= next) wanted := by
  intro error after failed
  rcases Run.bind_ended failed with ⟨error', failed', same⟩ | ⟨value, between, ran, rest⟩
  · cases same
    exact first _ _ failed'
  · exact second value between ran _ _ rest

/-- A step that only looks something up or writes it never fails, so the rest decides. -/
theorem bindStep {run : Run α} {next : α → Run β} {value : α} {between : State}
    (ran : run.from? state = some (.ok value, between))
    (second : Fails between (next value) wanted) : Fails state (run >>= next) wanted := by
  intro error after failed
  rw [Run.from?_bind_ok ran] at failed
  exact second error after failed

theorem map {run : Run α} (change : α → β) (fails : Fails state run wanted) :
    Fails state (change <$> run) wanted := by
  rw [map_eq_pure_bind]
  exact fails.bind fun value _ _ => pure (change value)

theorem mapM {items : List α} {step : α → Run β}
    (steps : ∀ item between, Fails between (step item) wanted) :
    Fails state (items.mapM step) wanted := by
  induction items generalizing state with
  | nil => exact pure []
  | cons item rest inductionHypothesis =>
      rw [List.mapM_cons]
      refine (steps item state).bind fun value _ _ => ?_
      exact inductionHypothesis.bind fun values _ _ => pure (value :: values)

end Fails

end Run

end Tabula
