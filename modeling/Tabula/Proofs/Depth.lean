import Tabula.Evaluation

/-!
# What finishes within a depth finishes within every greater one

The depth bounds how deeply evaluation nests and does nothing else: where an evaluation ends within
a depth, it ends in the same way within every greater depth. So two depths never disagree, and what
a node does may be said without naming one.
-/

namespace Tabula

namespace Run

variable {α β : Type}

/-- Wherever the first step ends, the second one ends in the same way. -/
def Extends (run deeper : Run α) : Prop :=
  ∀ ⦃state : State⦄ ⦃ended : Except Error α × State⦄,
    run.from? state = some ended → deeper.from? state = some ended

namespace Extends

theorem refl (run : Run α) : Extends run run := fun _ _ ended => ended

theorem unfinished {deeper : Run α} : Extends Run.unfinished deeper :=
  fun _ _ ended => nomatch ended

theorem bind {run deeper : Run α} {next nextDeeper : α → Run β} (first : Extends run deeper)
    (second : ∀ value, Extends (next value) (nextDeeper value)) :
    Extends (run >>= next) (deeper >>= nextDeeper) := by
  rintro state ⟨outcome, after⟩ ended
  rcases Run.bind_ended ended with ⟨error, failed, rfl⟩ | ⟨value, between, ran, rest⟩
  · rw [Run.from?_bind, first failed]
  · rw [Run.from?_bind, first ran]
    exact second value rest

theorem map {run deeper : Run α} (change : α → β) (runs : Extends run deeper) :
    Extends (change <$> run) (change <$> deeper) := by
  rw [map_eq_pure_bind, map_eq_pure_bind]
  exact runs.bind fun value => refl _

theorem attempt {run deeper : Run α} (runs : Extends run deeper) :
    Extends (Run.attempt run) (Run.attempt deeper) := by
  intro state ended isEnd
  rw [Run.from?_attempt, Option.map_eq_some_iff] at isEnd ⊢
  obtain ⟨reached, ran, same⟩ := isEnd
  exact ⟨reached, runs ran, same⟩

theorem tagged {run deeper : Run α} (operator : Operator) (runs : Extends run deeper) :
    Extends (Run.tagged operator run) (Run.tagged operator deeper) := by
  intro state ended isEnd
  rw [Run.from?_tagged, Option.map_eq_some_iff] at isEnd ⊢
  obtain ⟨reached, ran, same⟩ := isEnd
  exact ⟨reached, runs ran, same⟩

theorem mapM {items : List α} {step stepDeeper : α → Run β}
    (steps : ∀ item, Extends (step item) (stepDeeper item)) :
    Extends (items.mapM step) (items.mapM stepDeeper) := by
  induction items with
  | nil => exact refl _
  | cons item rest inductionHypothesis =>
      rw [List.mapM_cons, List.mapM_cons]
      refine (steps item).bind fun value => ?_
      exact inductionHypothesis.bind fun values => refl _

end Extends

end Run

/-- Wherever an evaluation ends, the other evaluator ends it in the same way. -/
def Evaluator.Extends (eval deeper : Evaluator) : Prop :=
  ∀ (scope : Cell) (node : Node), Run.Extends (eval scope node) (deeper scope node)

namespace Rule

open Run

variable {eval deeper : Evaluator}

theorem forAll_extends {α β : Type} {step stepDeeper : α → Run β}
    (steps : ∀ item, Extends (step item) (stepDeeper item)) (items : List α) :
    Extends (forAll step items) (forAll stepDeeper items) := by
  have attempts : Extends (items.mapM fun item => Run.attempt (step item))
      (items.mapM fun item => Run.attempt (stepDeeper item)) :=
    Extends.mapM fun item => (steps item).attempt
  exact attempts.bind fun _ => .refl _

section Nested

variable (further : eval.Extends deeper) (scope : Cell)

include further

/-! ## Operands and operations -/

theorem both_extends (left right : Node) :
    Extends (both eval scope left right) (both deeper scope left right) := by
  refine (further scope left).attempt.bind fun outcome => ?_
  exact (further scope right).attempt.bind fun _ => .refl _

theorem entry_extends (node : Node) :
    Extends (entry eval scope node) (entry deeper scope node) := by
  cases node with
  | atom name => exact .refl _
  | _ => exact further scope _

theorem materialize_extends (entries : List (String × Node)) :
    Extends (materialize eval scope entries) (materialize deeper scope entries) :=
  (forAll_extends (entry_extends further scope) _).bind fun _ => .refl _

theorem statements_extends (body : List Node) :
    Extends (statements eval scope body) (statements deeper scope body) := by
  induction body with
  | nil => exact .refl _
  | cons node rest inductionHypothesis =>
      exact ((further scope node).map _).bind fun _ => inductionHypothesis

omit scope in
theorem block_extends (body : List Node) (bindings : Table Value) :
    Extends (block eval body bindings) (block deeper body bindings) := by
  refine (Extends.refl _).bind fun inner => ?_
  exact (statements_extends further inner body).bind fun _ => .refl _

theorem arithmetic_extends (operator : Operator) (left right : Node) :
    Extends (arithmetic eval scope operator left right)
      (arithmetic deeper scope operator left right) :=
  (both_extends further scope left right).bind fun _ => .refl _

theorem equality_extends (operator : Operator) (left right : Node) :
    Extends (equality eval scope operator left right)
      (equality deeper scope operator left right) :=
  (both_extends further scope left right).bind fun _ => .refl _

theorem field_extends (left right : Node) :
    Extends (field eval scope left right) (field deeper scope left right) := by
  cases right with
  | atom key => exact (further scope left).bind fun _ => .refl _
  | accessor name =>
      exact (both_extends further scope left (.accessor name)).bind fun _ => .refl _
  | _ => exact .refl _

theorem keyRead_extends (left right : Node) :
    Extends (keyRead eval scope left right) (keyRead deeper scope left right) :=
  (both_extends further scope left right).bind fun _ => .refl _

theorem capture_extends (left right : Node) :
    Extends (capture eval scope left right) (capture deeper scope left right) :=
  (both_extends further scope left right).bind fun _ => .refl _

/-! ## Writing -/

theorem bind_extends (left right : Node) :
    Extends (bind eval scope left right) (bind deeper scope left right) := by
  cases left with
  | atom name => exact (further scope right).bind fun _ => .refl _
  | _ => exact .refl _

theorem append_extends (left right : Node) :
    Extends (append eval scope left right) (append deeper scope left right) :=
  (both_extends further scope left right).bind fun _ => .refl _

theorem stepKey_extends (node : Node) :
    Extends (stepKey eval scope node) (stepKey deeper scope node) := by
  cases node with
  | accessor name => exact (further scope (.accessor name)).bind fun _ => .refl _
  | _ => exact .refl _

theorem targetFrom_extends (keys : List String) (node : Node) :
    Extends (targetFrom eval scope keys node) (targetFrom deeper scope keys node) := by
  cases node with
  | expression applied left right =>
      cases applied with
      | operator symbol =>
          rw [targetFrom, targetFrom]
          split
          · refine (stepKey_extends further scope right).bind fun key => ?_
            exact targetFrom_extends (key :: keys) left
          · exact .refl _
      | _ => exact .refl _
  | _ => exact .refl _

theorem assign_extends (left right : Node) :
    Extends (assign eval scope left right) (assign deeper scope left right) := by
  refine (further scope right).bind fun value => ?_
  exact (targetFrom_extends further scope [] left).bind fun _ => .refl _

theorem result_extends (right : Node) :
    Extends (result eval scope right) (result deeper scope right) :=
  (further scope right).bind fun _ => .refl _

/-! ## Blocks -/

theorem positional_extends (right : Node) :
    Extends (positional eval scope right) (positional deeper scope right) := by
  cases right with
  | template entries => exact forAll_extends (further scope) _
  | _ => exact (further scope _).bind fun _ => .refl _

theorem named_extends (right : Node) :
    Extends (named eval scope right) (named deeper scope right) := by
  cases right with
  | template entries => exact materialize_extends further scope entries
  | atom name =>
      refine (Extends.refl _).bind fun found => ?_
      cases found with
      | none => exact .refl _
      | some _ => exact (further scope (.atom name)).bind fun _ => .refl _
  | _ => exact (further scope _).bind fun _ => .refl _

theorem invoke_extends (action : Action) (bindings : Table Value) :
    Extends (invoke eval scope action bindings) (invoke deeper scope action bindings) := by
  refine (Extends.refl _).bind fun closure => ?_
  exact (block_extends further action.body _).bind fun _ => .refl _

theorem call_extends (left right : Node) :
    Extends (call eval scope left right) (call deeper scope left right) := by
  refine (further scope left).bind fun callee => ?_
  cases callee with
  | function function =>
      exact (positional_extends further scope right).bind fun _ => .refl _
  | action action =>
      exact (named_extends further scope right).bind
        fun bindings => invoke_extends further scope action bindings
  | _ => exact .refl _

theorem branch_extends (left right : Node) :
    Extends (branch eval scope left right) (branch deeper scope left right) := by
  refine (both_extends further scope left right).bind fun values => ?_
  obtain ⟨condition, body⟩ := values
  dsimp only
  split
  · exact .refl _
  · refine (Extends.refl _).bind fun action => ?_
    refine (Extends.refl _).bind fun seed => ?_
    exact (block_extends further action.body seed).bind fun _ => .refl _

omit scope in
theorem loopFrom_extends (action : Action) (position : Nat) (elements : List Value) :
    Extends (loopFrom eval action position elements)
      (loopFrom deeper action position elements) := by
  induction elements generalizing position with
  | nil => exact .refl _
  | cons element rest inductionHypothesis =>
      rw [loopFrom, loopFrom]
      refine (Extends.refl _).bind fun closure => ?_
      exact (block_extends further action.body _).bind
        fun _ => inductionHypothesis (position + 1)

theorem each_extends (left right : Node) :
    Extends (each eval scope left right) (each deeper scope left right) := by
  refine (both_extends further scope left right).bind fun values => ?_
  refine (Extends.refl _).bind fun action => ?_
  refine (Extends.refl _).bind fun heap => ?_
  split
  · exact (loopFrom_extends further action 0 _).bind fun _ => .refl _
  · exact .refl _

/-! ## Exchange -/

theorem exportModule_extends (right : Node) :
    Extends (exportModule eval scope right) (exportModule deeper scope right) := by
  refine (Extends.refl _).bind fun found => ?_
  cases found with
  | none => exact .refl _
  | some _ => exact (further scope right).bind fun _ => .refl _

omit scope in
theorem program_extends (statements : Program) (initial : Cell) :
    Extends (program eval statements initial) (program deeper statements initial) :=
  (Extends.refl _).bind fun bindings => block_extends further statements bindings

theorem importModule_extends (interpreter : Interpreter) (right : Node) :
    Extends (importModule interpreter eval scope right)
      (importModule interpreter deeper scope right) := by
  refine (Extends.refl _).bind fun path => ?_
  refine (Extends.refl _).bind fun stamp => ?_
  refine (Extends.refl _).bind fun statements => ?_
  refine (Extends.refl _).bind fun initial => ?_
  exact (program_extends further statements initial).bind fun _ => .refl _

theorem print_extends (interpreter : Interpreter) (right : Node) :
    Extends (print interpreter eval scope right) (print interpreter deeper scope right) :=
  (further scope right).bind fun _ => .refl _

end Nested

end Rule

namespace Interpreter

open Run

variable (interpreter : Interpreter) {eval deeper : Evaluator}

theorem apply_extends (further : eval.Extends deeper) (scope : Cell) (operator : Operator)
    (left right : Node) :
    Extends (interpreter.apply eval scope operator left right)
      (interpreter.apply deeper scope operator left right) := by
  cases operator with
  | bind => exact Rule.bind_extends further scope left right
  | add => exact Rule.arithmetic_extends further scope .add left right
  | subtract => exact Rule.arithmetic_extends further scope .subtract left right
  | equal => exact Rule.equality_extends further scope .equal left right
  | notEqual => exact Rule.equality_extends further scope .notEqual left right
  | field => exact Rule.field_extends further scope left right
  | keyRead => exact Rule.keyRead_extends further scope left right
  | capture => exact Rule.capture_extends further scope left right
  | call => exact Rule.call_extends further scope left right
  | branch => exact Rule.branch_extends further scope left right
  | each => exact Rule.each_extends further scope left right
  | append => exact Rule.append_extends further scope left right
  | assign => exact Rule.assign_extends further scope left right
  | exportModule => exact Rule.exportModule_extends further scope right
  | importModule => exact Rule.importModule_extends further scope interpreter right
  | print => exact Rule.print_extends further scope interpreter right
  | result => exact Rule.result_extends further scope right
  | construct => exact .refl _
  | declareModule => exact .refl _
  | requireForeign => exact .refl _

theorem step_extends (further : eval.Extends deeper) :
    Evaluator.Extends (interpreter.step eval) (interpreter.step deeper) := by
  intro scope node
  cases node with
  | expression applied left right =>
      refine (Extends.refl _).bind fun operator => ?_
      exact (interpreter.apply_extends further scope operator left right).tagged operator
  | template entries =>
      exact (Rule.materialize_extends further scope entries).bind fun _ => .refl _
  | _ => exact .refl _

/-- What finishes within a depth gives the same outcome within every greater one. -/
theorem evaluate_extends {depth greater : Nat} (within : depth ≤ greater) :
    Evaluator.Extends (interpreter.evaluate depth) (interpreter.evaluate greater) := by
  induction depth generalizing greater with
  | zero => exact fun scope node => .unfinished
  | succ depth inductionHypothesis =>
      cases greater with
      | zero => exact absurd within (Nat.not_succ_le_zero depth)
      | succ greater =>
          exact interpreter.step_extends (inductionHypothesis (Nat.le_of_succ_le_succ within))

/-- Within some depth, the evaluation of a node ends with an outcome and in a state. -/
def Ends (scope : Cell) (node : Node) (state : State) (outcome : Except Error Value)
    (after : State) : Prop :=
  ∃ depth, (interpreter.evaluate depth scope node).from? state = some (outcome, after)

/-- However deeply it may nest, an evaluation ends in one way only. -/
theorem Ends.unique {scope : Cell} {node : Node} {state after after' : State}
    {outcome outcome' : Except Error Value}
    (ends : interpreter.Ends scope node state outcome after)
    (ends' : interpreter.Ends scope node state outcome' after') :
    outcome = outcome' ∧ after = after' := by
  obtain ⟨depth, ran⟩ := ends
  obtain ⟨depth', ran'⟩ := ends'
  have deep := interpreter.evaluate_extends (Nat.le_max_left depth depth') scope node ran
  have deep' := interpreter.evaluate_extends (Nat.le_max_right depth depth') scope node ran'
  have same := deep.symm.trans deep'
  rw [Option.some.injEq, Prod.mk.injEq] at same
  exact same

/-- No evaluation ends within depth zero. -/
theorem Ends.exists_succ {scope : Cell} {node : Node} {state after : State}
    {outcome : Except Error Value} (ends : interpreter.Ends scope node state outcome after) :
    ∃ depth, (interpreter.evaluate (depth + 1) scope node).from? state = some (outcome, after) := by
  obtain ⟨depth, ran⟩ := ends
  exact ⟨depth, interpreter.evaluate_extends (Nat.le_succ depth) scope node ran⟩

end Interpreter

end Tabula
