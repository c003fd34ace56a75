import Tabula.Proofs.Fork
import Tabula.Proofs.Operands

/-!
# Operands without effects may be evaluated in either order

The operators that only compute leave the state as it is, except that they may allocate cells. So
does every node that is built from leaves, templates and these operators, also where it is
malformed or fails.

If one of two such operands is evaluated before the other, then the other one begins in a heap that
has grown. The heap as it was and the heap that has grown correspond: the old cells to themselves,
and the cells still to come in the order in which they will be allocated. Hence the order of the two
shows in the numbers of new cells only, and no text tells these.
-/

namespace Tabula

/-- The operators whose rules write to no cell, draw no number, print nothing and run no block. -/
def Operator.isEffectFree : Operator → Bool
  | add | subtract | equal | notEqual | field | keyRead | capture | construct => true
  | _ => false

/-- Nodes made of leaves, templates and operators without effects. An operator may stand where a
value is wanted, and something else where an operator is wanted. -/
inductive Node.EffectFree : Node → Prop
  | atom (name : String) : EffectFree (.atom name)
  | accessor (name : String) : EffectFree (.accessor name)
  | constant (value : Constant) : EffectFree (.constant value)
  | action (label : Label) (body : List Node) : EffectFree (.action label body)
  | operator (symbol : String) : EffectFree (.operator symbol)
  | template {entries : List (String × Node)} :
      (∀ entry ∈ entries, EffectFree entry.2) → EffectFree (.template entries)
  | expression {applied left right : Node} :
      (∀ operator : Operator, applied = .operator operator.symbol → operator.isEffectFree) →
      EffectFree left → EffectFree right → EffectFree (.expression applied left right)

theorem Node.EffectFree.applying (operator : Operator) {left right : Node}
    (effectFree : operator.isEffectFree) (leftFree : left.EffectFree)
    (rightFree : right.EffectFree) :
    EffectFree (.expression (.operator operator.symbol) left right) := by
  refine .expression (fun other same => ?_) leftFree rightFree
  have sameSymbol : operator.symbol = other.symbol := Node.operator.inj same
  have sameOperator : some operator = some other := by
    rw [← Operator.ofSymbol?_symbol operator, sameSymbol, Operator.ofSymbol?_symbol]
  rwa [← Option.some.inj sameOperator]

/-! ## States that only grow -/

/-- No cell changes, no number is drawn and nothing is printed; there may be new cells. -/
structure State.Grows (state after : State) : Prop where
  size : state.heap.size ≤ after.heap.size
  frame : ∀ cell < state.heap.size, after.heap.read cell = state.heap.read cell
  supply : after.supply = state.supply
  printed : after.printed = state.printed

theorem State.Grows.refl (state : State) : state.Grows state :=
  ⟨Nat.le_refl _, fun _ _ => rfl, rfl, rfl⟩

theorem State.Grows.trans {state between after : State} (first : state.Grows between)
    (second : between.Grows after) : state.Grows after where
  size := Nat.le_trans first.size second.size
  frame cell old :=
    (second.frame cell (Nat.lt_of_lt_of_le old first.size)).trans (first.frame cell old)
  supply := second.supply.trans first.supply
  printed := second.printed.trans first.printed

/-- However it ends, the step only makes the state grow. -/
def Run.Quiet {α : Type} (run : Run α) : Prop :=
  ∀ ⦃state after : State⦄ ⦃outcome : Except Error α⦄,
    run.from? state = some (outcome, after) → state.Grows after

namespace Run.Quiet

variable {α β : Type}

theorem pure (value : α) : Quiet (Pure.pure value) := by
  intro state after outcome ended
  cases ended
  exact .refl state

theorem throw (error : Error) : Quiet (throw error : Run α) := by
  intro state after outcome ended
  cases ended
  exact .refl state

theorem fail (reason : Reason) : Quiet (Run.fail reason : Run α) :=
  throw (Error.ofReason reason)

theorem unfinished : Quiet (Run.unfinished : Run α) :=
  fun _ _ _ ended => nomatch ended

theorem bind {run : Run α} {next : α → Run β} (first : Quiet run)
    (second : ∀ value, Quiet (next value)) : Quiet (run >>= next) := by
  intro state after outcome ended
  rcases Run.bind_ended ended with ⟨error, failed, _⟩ | ⟨value, between, ran, rest⟩
  · exact first failed
  · exact (first ran).trans (second value rest)

theorem map {run : Run α} (change : α → β) (quiet : Quiet run) : Quiet (change <$> run) := by
  rw [map_eq_pure_bind]
  exact quiet.bind fun value => pure (change value)

theorem attempt {run : Run α} (quiet : Quiet run) : Quiet (Run.attempt run) := by
  intro state after outcome ended
  rw [Run.from?_attempt, Option.map_eq_some_iff] at ended
  obtain ⟨⟨result, reached⟩, ran, same⟩ := ended
  cases same
  exact quiet ran

theorem tagged {run : Run α} (operator : Operator) (quiet : Quiet run) :
    Quiet (Run.tagged operator run) := by
  intro state after outcome ended
  rw [Run.from?_tagged, Option.map_eq_some_iff] at ended
  obtain ⟨⟨result, reached⟩, ran, same⟩ := ended
  cases same
  exact quiet ran

theorem ofExcept (outcome : Except Error α) : Quiet (Run.ofExcept outcome) := by
  cases outcome with
  | ok value => exact pure value
  | error error => exact throw error

theorem mapM {items : List α} {step : α → Run β} (steps : ∀ item ∈ items, Quiet (step item)) :
    Quiet (items.mapM step) := by
  induction items with
  | nil => exact pure []
  | cons item rest inductionHypothesis =>
      rw [List.mapM_cons]
      refine (steps item List.mem_cons_self).bind fun value => ?_
      have others : Quiet (rest.mapM step) :=
        inductionHypothesis fun other member => steps other (List.mem_cons_of_mem item member)
      exact others.bind fun values => pure (value :: values)

theorem heap : Quiet Run.heap := by
  intro state after outcome ended
  cases ended
  exact .refl state

theorem lookup (scope : Cell) (name : String) : Quiet (Run.lookup scope name) :=
  heap.bind fun heap => pure (heap.get? scope name)

theorem alloc (table : Table Value) : Quiet (Run.alloc table) := by
  intro state after outcome ended
  cases ended
  constructor
  · exact Nat.le_of_lt (Nat.lt_of_lt_of_eq (Nat.lt_succ_self _) (Heap.size_alloc _ _).symm)
  · exact fun cell old => state.heap.read_alloc_of_ne table (Nat.ne_of_lt old)
  · rfl
  · rfl

end Run.Quiet

/-! ## Rules without effects -/

namespace Rule

open Run

section Operands

variable {eval : Evaluator} {scope : Cell} {left right : Node}

theorem both_quiet (lefts : Quiet (eval scope left)) (rights : Quiet (eval scope right)) :
    Quiet (both eval scope left right) := by
  refine lefts.attempt.bind fun outcome => ?_
  refine rights.attempt.bind fun outcome' => ?_
  refine (Quiet.ofExcept outcome).bind fun value => ?_
  exact (Quiet.ofExcept outcome').bind fun value' => Quiet.pure (value, value')

theorem forAll_quiet {α β : Type} {step : α → Run β} {items : List α}
    (steps : ∀ item ∈ items, Quiet (step item)) : Quiet (forAll step items) := by
  have attempts : Quiet (items.mapM fun item => Run.attempt (step item)) :=
    Quiet.mapM fun item member => (steps item member).attempt
  exact attempts.bind fun outcomes => Quiet.mapM fun outcome _ => Quiet.ofExcept outcome

theorem entry_quiet {node : Node} (quiet : Quiet (eval scope node)) :
    Quiet (entry eval scope node) := by
  cases node with
  | atom name => exact Quiet.pure _
  | _ => exact quiet

theorem materialize_quiet {entries : List (String × Node)}
    (quiet : ∀ entry ∈ entries, Quiet (eval scope entry.2)) :
    Quiet (materialize eval scope entries) := by
  have values : Quiet (forAll (entry eval scope) (entries.map Prod.snd)) := by
    refine forAll_quiet fun node member => ?_
    obtain ⟨found, foundMember, rfl⟩ := List.mem_map.mp member
    exact entry_quiet (quiet found foundMember)
  exact values.bind fun found => Quiet.pure _

theorem arithmetic_quiet (operator : Operator) (both : Quiet (both eval scope left right)) :
    Quiet (arithmetic eval scope operator left right) := by
  refine both.bind fun values => ?_
  obtain ⟨x, y⟩ := values
  dsimp only
  split
  · exact Quiet.pure _
  · exact Quiet.fail _
  · exact Quiet.pure _
  · exact Quiet.pure _
  · exact Quiet.fail _

theorem equality_quiet (operator : Operator) (both : Quiet (both eval scope left right)) :
    Quiet (equality eval scope operator left right) := by
  refine both.bind fun values => ?_
  obtain ⟨x, y⟩ := values
  dsimp only
  split
  · refine Quiet.heap.bind fun heap => ?_
    split
    · exact Quiet.pure _
    · exact Quiet.unfinished
  · exact Quiet.fail _

theorem fieldUnder_quiet (target key : Value) : Quiet (fieldUnder target key) := by
  rw [fieldUnder]
  split
  · exact Quiet.heap.bind fun heap => Quiet.pure _
  · exact Quiet.pure _

theorem field_quiet (lefts : Quiet (eval scope left))
    (both : Quiet (both eval scope left right)) : Quiet (field eval scope left right) := by
  cases right with
  | atom key => exact lefts.bind fun target => Quiet.heap.bind fun heap => Quiet.pure _
  | accessor name => exact both.bind fun (target, key) => fieldUnder_quiet target key
  | _ => exact Quiet.fail _

theorem keyRead_quiet (both : Quiet (both eval scope left right)) :
    Quiet (keyRead eval scope left right) :=
  both.bind fun (key, target) => fieldUnder_quiet target key

theorem wantAction_quiet (operator : Operator) (value : Value) :
    Quiet (wantAction operator value) := by
  cases value with
  | action action => exact Quiet.pure action
  | _ => exact Quiet.fail _

theorem capture_quiet (both : Quiet (both eval scope left right)) :
    Quiet (capture eval scope left right) :=
  both.bind fun (_, value) => (wantAction_quiet .capture value).bind fun _ => Quiet.pure _

theorem construct_quiet (right : Node) : Quiet (construct right) := by
  rw [construct]
  split
  · exact (Quiet.alloc []).map Value.struct
  · exact Quiet.fail _
  · exact Quiet.fail _

end Operands

end Rule

namespace Interpreter

open Run

variable (interpreter : Interpreter)

theorem apply_quiet {eval : Evaluator} {scope : Cell} {operator : Operator} {left right : Node}
    (effectFree : operator.isEffectFree) (lefts : Quiet (eval scope left))
    (rights : Quiet (eval scope right)) :
    Quiet (interpreter.apply eval scope operator left right) := by
  have both : Quiet (Rule.both eval scope left right) := Rule.both_quiet lefts rights
  cases operator with
  | add => exact Rule.arithmetic_quiet .add both
  | subtract => exact Rule.arithmetic_quiet .subtract both
  | equal => exact Rule.equality_quiet .equal both
  | notEqual => exact Rule.equality_quiet .notEqual both
  | field => exact Rule.field_quiet lefts both
  | keyRead => exact Rule.keyRead_quiet both
  | capture => exact Rule.capture_quiet both
  | construct => exact Rule.construct_quiet right
  | _ => exact absurd effectFree (by decide)

/-- Finding out the operator of an expression does nothing, and finds what is spelled there. -/
theorem from?_operatorOf {applied : Node} {state after : State} {outcome : Except Error Operator}
    (ended : (operatorOf applied).from? state = some (outcome, after)) :
    after = state ∧ ∀ operator, outcome = .ok operator → applied = .operator operator.symbol := by
  cases applied with
  | operator symbol =>
      rw [operatorOf] at ended
      split at ended
      · rename_i operator spelled
        cases ended
        refine ⟨rfl, fun found isFound => ?_⟩
        cases isFound
        rw [Operator.ofSymbol?_eq_some_iff.mp spelled]
      · cases ended
        refine ⟨rfl, fun _ isFound => ?_⟩
        cases isFound
  | _ =>
      cases ended
      refine ⟨rfl, fun _ isFound => ?_⟩
      cases isFound

theorem evaluate_quiet (depth : Nat) (scope : Cell) {node : Node} (effectFree : node.EffectFree) :
    Quiet (interpreter.evaluate depth scope node) := by
  induction depth generalizing node with
  | zero => exact Quiet.unfinished
  | succ depth inductionHypothesis =>
      have name : ∀ text : String,
          Quiet (do return (← Run.lookup scope text).getD (.string text)) :=
        fun text => (Quiet.lookup scope text).bind fun found => Quiet.pure _
      cases effectFree with
      | atom text => exact name text
      | accessor text => exact name text
      | constant value => exact Quiet.pure _
      | action label body => exact Quiet.pure _
      | operator symbol => exact Quiet.fail _
      | template entriesFree =>
          have entries := Rule.materialize_quiet fun entry member =>
            inductionHypothesis (entriesFree entry member)
          exact entries.bind fun table => (Quiet.alloc table).bind fun cell => Quiet.pure _
      | @expression applied left right spells leftFree rightFree =>
          intro state after outcome ended
          rcases Run.bind_ended ended with ⟨error, failed, _⟩ | ⟨operator, between, spelled, ran⟩
          · rw [(from?_operatorOf failed).1]
            exact .refl state
          · obtain ⟨rfl, isOperator⟩ := from?_operatorOf spelled
            have quiet := interpreter.apply_quiet (spells operator (isOperator operator rfl))
              (inductionHypothesis leftFree) (inductionHypothesis rightFree)
            exact quiet.tagged operator ran

end Interpreter

/-! ## A heap and what it grows into -/

namespace Correspondence

/-- Old cells are the same in both runs. The cells to come are new in each, and come in the same
order. -/
def Grown (old left right cell other : Nat) : Prop :=
  (cell = other ∧ cell < old) ∨ Aligned left right cell other

theorem biUnique_grown {old left right : Nat} (oldLeft : old ≤ left) (oldRight : old ≤ right) :
    Relator.BiUnique (Grown old left right) := by
  constructor
  · intro cell cell' other first second
    rcases first with ⟨same, isOld⟩ | ⟨offset, isCell, isOther⟩ <;>
      rcases second with ⟨same', isOld'⟩ | ⟨offset', isCell', isOther'⟩ <;>
      omega
  · intro cell other other' first second
    rcases first with ⟨same, isOld⟩ | ⟨offset, isCell, isOther⟩ <;>
      rcases second with ⟨same', isOld'⟩ | ⟨offset', isCell', isOther'⟩ <;>
      omega

variable {state left right : State}

/-- Two states that grew from the same one. -/
def grown (lefts : state.Grows left) (rights : state.Grows right) : Correspondence where
  cells := Grown state.heap.size left.heap.size right.heap.size
  serials := Eq
  leftText := state.printed
  rightText := state.printed
  biUnique_cells := biUnique_grown lefts.size rights.size
  biUnique_serials := biUnique_eq

theorem grown_values_self (lefts : state.Grows left) (rights : state.Grows right) {value : Value}
    (within : value.Within (fun cell => cell < state.heap.size)
      (fun cell => cell < state.heap.size)) :
    (grown lefts rights).Values value value := by
  apply Values.self (fun _ => rfl) rfl
  exact within.mono (fun cell old => Or.inl ⟨rfl, old⟩) (fun cell old => Or.inl ⟨rfl, old⟩)

theorem grown_states (closed : state.heap.Closed) (lefts : state.Grows left)
    (rights : state.Grows right) : (grown lefts rights).States left right := by
  refine ⟨⟨?_, fun offset => Or.inr ⟨offset, rfl, rfl⟩⟩, ?_, "", ?_⟩
  · rintro cell other (⟨rfl, old⟩ | ⟨offset, rfl, rfl⟩)
    · -- an old cell holds what it held, which refers to old cells only
      rw [lefts.frame cell old, rights.frame cell old]
      refine List.forall₂_same.mpr fun entry member => ⟨rfl, ?_⟩
      exact grown_values_self lefts rights
        (closed cell entry.2 (List.mem_map_of_mem member))
    · rw [Heap.read_of_size_le _ (Nat.le_add_right _ offset),
        Heap.read_of_size_le _ (Nat.le_add_right _ offset)]
      exact .nil
  · intro offset
    rw [lefts.supply, rights.supply]
    rfl
  · rw [String.append_empty, String.append_empty]
    exact ⟨lefts.printed, rights.printed⟩

theorem grown_agree (interpreter : Interpreter) (depth : Nat) {scope : Cell} (node : Node)
    (present : scope < state.heap.size) (lefts : state.Grows left) (rights : state.Grows right) :
    (grown lefts rights).Agree (grown lefts rights).Values
      (interpreter.evaluate depth scope node) (interpreter.evaluate depth scope node) := by
  have respects : (grown lefts rights).Respects (interpreter.evaluate depth) :=
    respects_evaluate interpreter (loadsAlike_of_same rfl fun same => same) depth
  have agree := respects node (Or.inl ⟨rfl, present⟩ : (grown lefts rights).cells scope scope)
  rwa [twin_eq_id rfl] at agree

end Correspondence

/-! ## What is seen of an outcome -/

/-- The same error, or values of one type that are displayed alike. -/
def Heap.ShowsAlike (heap other : Heap) : Except Error Value → Except Error Value → Prop :=
  Correspondence.Outcomes fun value value' =>
    value.tag = value'.tag ∧ heap.display value = other.display value'

namespace Heap.ShowsAlike

variable {first second third : Heap} {outcome outcome' outcome'' : Except Error Value}

theorem symm (alike : first.ShowsAlike second outcome outcome') :
    second.ShowsAlike first outcome' outcome := by
  cases alike with
  | value same => exact .value ⟨same.1.symm, same.2.symm⟩
  | error error => exact .error error

theorem trans (alike : first.ShowsAlike second outcome outcome')
    (alike' : second.ShowsAlike third outcome' outcome'') :
    first.ShowsAlike third outcome outcome'' := by
  cases alike with
  | value same =>
      cases alike' with
      | value same' => exact .value ⟨same.1.trans same'.1, same.2.trans same'.2⟩
  | error error =>
      cases alike' with
      | error error => exact .error error

theorem of_corresponding {correspondence : Correspondence}
    (heaps : correspondence.Heaps first second)
    (outcomes : Correspondence.Outcomes correspondence.Values outcome outcome') :
    first.ShowsAlike second outcome outcome' := by
  cases outcomes with
  | value values => exact .value ⟨values.tag, heaps.display values⟩
  | error error => exact .error error

theorem of_grows {state after : State} (closed : state.heap.Closed)
    (within : ∀ value, outcome = .ok value →
      value.Within (fun cell => cell < state.heap.size) (fun cell => cell < state.heap.size))
    (grows : state.Grows after) : state.heap.ShowsAlike after.heap outcome outcome := by
  have states := Correspondence.grown_states closed (.refl state) grows
  cases outcome with
  | ok value =>
      have same := Correspondence.grown_values_self (.refl state) grows (within value rfl)
      exact .value ⟨rfl, states.heaps.display same⟩
  | error error => exact .error error

end Heap.ShowsAlike

/-- Evaluation in an allocated scope of a closed heap leaves a closed heap, and gives a value of
allocated cells. -/
theorem Interpreter.evaluate_allocated (interpreter : Interpreter) {depth : Nat} {scope : Cell}
    {node : Node} {state after : State} {outcome : Except Error Value}
    (closed : state.heap.Closed) (present : scope < state.heap.size)
    (ended : (interpreter.evaluate depth scope node).from? state = some (outcome, after)) :
    after.heap.Closed ∧ ∀ value, outcome = .ok value →
      value.Within (fun cell => cell < after.heap.size) (fun cell => cell < after.heap.size) := by
  have start : (Discipline.allocated state.printed).kept state :=
    ⟨closed, "", (String.append_empty).symm⟩
  have ends := Discipline.governs_evaluate interpreter depth state scope node present start _ _
    ended
  exact ⟨ends.kept.1, ends.value⟩

/-- An evaluation that begins later, when the state has grown, ends as it would have before. -/
theorem Interpreter.evaluate_later (interpreter : Interpreter) (depth : Nat) {scope : Cell}
    (node : Node) {state later : State} (closed : state.heap.Closed)
    (present : scope < state.heap.size) (grows : state.Grows later) :
    Option.Rel (fun ended ended' => ended.2.heap.ShowsAlike ended'.2.heap ended.1 ended'.1)
      ((interpreter.evaluate depth scope node).from? state)
      ((interpreter.evaluate depth scope node).from? later) := by
  have states := Correspondence.grown_states closed (.refl state) grows
  have agree := Correspondence.grown_agree interpreter depth node present (.refl state) grows
  have ends := agree states
  generalize (interpreter.evaluate depth scope node).from? state = early at ends ⊢
  generalize (interpreter.evaluate depth scope node).from? later = late at ends ⊢
  cases ends with
  | none => exact .none
  | some ended => exact .some (.of_corresponding ended.2.heaps ended.1)

/-! ## Both orders -/

/-- In the end, each operand is seen alike in both orders. -/
structure InTurn.Swapped (ended other : InTurn) : Prop where
  first : ended.after.heap.ShowsAlike other.after.heap ended.first other.second
  second : ended.after.heap.ShowsAlike other.after.heap ended.second other.first

/-- If two operands without effects end in one order, then they end in the other order too, and
each of them is seen alike. -/
theorem Interpreter.inTurn_swapped (interpreter : Interpreter) {depth : Nat} {scope : Cell}
    {left right : Node} {state : State} {ended : InTurn} (closed : state.heap.Closed)
    (present : scope < state.heap.size) (leftFree : left.EffectFree)
    (rightFree : right.EffectFree)
    (ran : Run.inTurn (interpreter.evaluate depth scope left)
      (interpreter.evaluate depth scope right) state = some ended) :
    ∃ other, Run.inTurn (interpreter.evaluate depth scope right)
      (interpreter.evaluate depth scope left) state = some other ∧ ended.Swapped other := by
  obtain ⟨afterLeft, ranLeft, lateRight⟩ := Run.inTurn_eq_some_iff.mp ran
  have leftGrows : state.Grows afterLeft := interpreter.evaluate_quiet depth scope leftFree ranLeft
  -- the right operand, which came second, would have ended at the start
  have rightEarlier := Correspondence.rel_flip
    (interpreter.evaluate_later depth right closed present leftGrows) fun _ _ seen => seen.symm
  rw [lateRight] at rightEarlier
  obtain ⟨⟨rightOutcome, afterRight⟩, ranRight, seenRight⟩ :=
    Correspondence.exists_of_rel_some rightEarlier
  have rightGrows : state.Grows afterRight :=
    interpreter.evaluate_quiet depth scope rightFree ranRight
  -- and the left operand, which came first, ends as well after it
  have leftLater := interpreter.evaluate_later depth left closed present rightGrows
  rw [ranLeft] at leftLater
  obtain ⟨⟨leftOutcome, afterBoth⟩, lateLeft, seenLeft⟩ :=
    Correspondence.exists_of_rel_some leftLater
  refine ⟨⟨rightOutcome, leftOutcome, afterBoth⟩,
    Run.inTurn_eq_some_iff.mpr ⟨afterRight, ranRight, lateLeft⟩, ?_⟩
  -- what was evaluated first is seen in the end as it was when it ended
  obtain ⟨closedLeft, withinLeft⟩ := interpreter.evaluate_allocated closed present ranLeft
  obtain ⟨closedRight, withinRight⟩ := interpreter.evaluate_allocated closed present ranRight
  have leftStays := Heap.ShowsAlike.of_grows closedLeft withinLeft
    (interpreter.evaluate_quiet depth scope rightFree lateRight)
  have rightStays := Heap.ShowsAlike.of_grows closedRight withinRight
    (interpreter.evaluate_quiet depth scope leftFree lateLeft)
  exact ⟨leftStays.symm.trans seenLeft, seenRight.trans rightStays⟩

/-- Evaluating operands without effects changes no cell that there was, draws no number and prints
nothing. Evaluated in one order or in the other, in any scope of a closed heap, they both do not
end, or each of them ends with the same error or with values of one type and one text. -/
theorem effect_free_operands_commute (interpreter : Interpreter) (depth : Nat) {scope : Cell}
    {left right : Node} {state : State} (closed : state.heap.Closed)
    (present : scope < state.heap.size) (leftFree : left.EffectFree)
    (rightFree : right.EffectFree) :
    Run.Quiet (interpreter.evaluate depth scope left) ∧
      Run.Quiet (interpreter.evaluate depth scope right) ∧
      Option.Rel InTurn.Swapped
        (Run.inTurn (interpreter.evaluate depth scope left)
          (interpreter.evaluate depth scope right) state)
        (Run.inTurn (interpreter.evaluate depth scope right)
          (interpreter.evaluate depth scope left) state) := by
  refine ⟨interpreter.evaluate_quiet depth scope leftFree,
    interpreter.evaluate_quiet depth scope rightFree, ?_⟩
  cases ran : Run.inTurn (interpreter.evaluate depth scope left)
      (interpreter.evaluate depth scope right) state with
  | some ended =>
      obtain ⟨other, ranOther, swapped⟩ :=
        interpreter.inTurn_swapped closed present leftFree rightFree ran
      rw [ranOther]
      exact .some swapped
  | none =>
      cases ranOther : Run.inTurn (interpreter.evaluate depth scope right)
          (interpreter.evaluate depth scope left) state with
      | none => exact .none
      | some other =>
          obtain ⟨ended, ranEnded, _⟩ :=
            interpreter.inTurn_swapped closed present rightFree leftFree ranOther
          rw [ran] at ranEnded
          exact nomatch ranEnded

/-- A scope with a struct that holds itself. -/
private def holdsItself : State :=
  { heap := ⟨#[[("s", .struct 1)], [("self", .struct 1), ("flag", .bool true)]]⟩ }

/-- A template of the struct and of a new one. -/
private def wrapsStruct : Node :=
  .template [("old", .accessor "s"), ("new", .expression (.operator "new") .void (.atom "Struct"))]

/-- Adds two templates, which no rule can do. -/
private def addsTemplates : Node :=
  .expression (.operator "+") (.template []) (.template [("same", .accessor "s")])

theorem template_beside_failing_sum :
    ∃ ended other : InTurn,
      Run.inTurn (({} : Interpreter).evaluate 3 0 wrapsStruct)
          (({} : Interpreter).evaluate 3 0 addsTemplates) holdsItself = some ended ∧
        Run.inTurn (({} : Interpreter).evaluate 3 0 addsTemplates)
          (({} : Interpreter).evaluate 3 0 wrapsStruct) holdsItself = some other ∧
        ended.first = .ok (.struct 3) ∧ other.second = .ok (.struct 5) ∧
        ended.Swapped other := by
  have closed : holdsItself.heap.Closed := by
    intro cell value member
    match cell, member with
    | 0, member =>
        rw [List.mem_singleton.mp member]
        exact Nat.lt_succ_self 1
    | 1, member =>
        rcases List.mem_cons.mp member with rfl | rest
        · exact Nat.lt_succ_self 1
        · rw [List.mem_singleton.mp rest]
          trivial
    | beyond + 2, member =>
        exact absurd (Heap.lt_size_of_mem_read member)
          (Nat.not_lt_of_le (Nat.le_add_left 2 beyond))
  have wrapsFree : wrapsStruct.EffectFree := by
    refine .template fun entry member => ?_
    rcases List.mem_cons.mp member with rfl | rest
    · exact .accessor "s"
    · rw [List.mem_singleton.mp rest]
      exact .applying .construct rfl (.constant .void) (.atom "Struct")
  have templateFree : Node.EffectFree (.template [("same", .accessor "s")]) := by
    refine .template fun entry member => ?_
    rw [List.mem_singleton.mp member]
    exact .accessor "s"
  have emptyFree : Node.EffectFree (.template []) :=
    .template fun entry member => absurd member List.not_mem_nil
  have addsFree : addsTemplates.EffectFree := .applying .add rfl emptyFree templateFree
  have swapped := (effect_free_operands_commute {} 3 closed
    (by decide : 0 < holdsItself.heap.size) wrapsFree addsFree).2.2
  obtain ⟨ended, ran, first⟩ : ∃ ended,
      Run.inTurn (({} : Interpreter).evaluate 3 0 wrapsStruct)
          (({} : Interpreter).evaluate 3 0 addsTemplates) holdsItself = some ended ∧
        ended.first = .ok (.struct 3) := ⟨_, rfl, rfl⟩
  obtain ⟨other, ranOther, second⟩ : ∃ other,
      Run.inTurn (({} : Interpreter).evaluate 3 0 addsTemplates)
          (({} : Interpreter).evaluate 3 0 wrapsStruct) holdsItself = some other ∧
        other.second = .ok (.struct 5) := ⟨_, rfl, rfl⟩
  rw [ran, ranOther] at swapped
  cases swapped with
  | some same => exact ⟨ended, other, ran, ranOther, first, second, same⟩

end Tabula
