import Tabula.Proofs.Trace.Basic

/-!
# Every failure is explained

One lemma per rule says that an error with which the rule fails is raised by the rule itself, or is
the error of an evaluation under it, unchanged. The operator is noted on it afterwards, once. So by
induction on the depth of nesting every failure has a trace that spells how it is nested.
-/

namespace Tabula

open Run

/-- Within a depth, every failure of an evaluation is explained. -/
def Interpreter.ExplainsAll (interpreter : Interpreter) (depth : Nat) : Prop :=
  ∀ (scope : Cell) (node : Node) (state : State),
    Fails state (interpreter.evaluate depth scope node) (interpreter.Explains scope node state)

namespace Rule

variable {interpreter : Interpreter} {depth : Nat} {scope : Cell} {operator : Operator}
  {left right : Node} {state between : State}

theorem raises {α : Type} {reason : Reason} (known : reason ≠ .unknown) :
    Fails between (Run.fail reason : Run α)
      (interpreter.Blames scope operator left right state) :=
  Fails.fail (Or.inl ⟨reason, known, rfl⟩)

section Operands

variable (explains : interpreter.ExplainsAll depth)

include explains

theorem left_fails (evaluated : operator.evaluatesLeft) :
    Fails state (interpreter.evaluate depth scope left)
      (interpreter.Blames scope operator left right state) :=
  (explains scope left state).mono fun _ explained =>
    Or.inr ⟨scope, left, state, .left evaluated, explained⟩

theorem right_fails (evaluated : operator.evaluatesRight)
    (leads : interpreter.Leads scope (if operator.evaluatesLeft then [left] else []) state
      between) :
    Fails between (interpreter.evaluate depth scope right)
      (interpreter.Blames scope operator left right state) :=
  (explains scope right between).mono fun _ explained =>
    Or.inr ⟨scope, right, between, .right evaluated leads, explained⟩

omit explains in
theorem leads_left (evaluated : operator.evaluatesLeft) {outcome : Except Error Value}
    (ran : (interpreter.evaluate depth scope left).from? state = some (outcome, between)) :
    interpreter.Leads scope (if operator.evaluatesLeft then [left] else []) state between := by
  rw [if_pos evaluated]
  exact .cons ⟨depth, ran⟩ (.nil between)

omit explains in
/-- Where the left operand is not evaluated first, the right one begins where the rule begins. -/
theorem leads_nil (unevaluated : operator.evaluatesLeft = false) :
    interpreter.Leads scope (if operator.evaluatesLeft then [left] else []) state state := by
  rw [unevaluated, if_neg Bool.false_ne_true]
  exact .nil state

theorem both_fails (evaluatedLeft : operator.evaluatesLeft)
    (evaluatedRight : operator.evaluatesRight) :
    Fails state (both (interpreter.evaluate depth) scope left right)
      (interpreter.Blames scope operator left right state) := by
  intro error after failed
  rcases both_failed failed with ⟨between, failedLeft⟩ | ⟨outcome, between, ranLeft, failedRight⟩
  · exact left_fails explains evaluatedLeft error between failedLeft
  · exact right_fails explains evaluatedRight (leads_left evaluatedLeft ranLeft) error after
      failedRight

end Operands

/-! ## Entries of templates -/

section Entries

variable {step : Node → Run Value}

/-- Attempts of steps that evaluate nodes lead through the nodes. -/
theorem leads_of_attempts {nodes : List Node} {outcomes : List (Except Error Value)}
    (evaluates : ∀ node state outcome after, (step node).from? state = some (outcome, after) →
      ∃ outcome', interpreter.Ends scope node state outcome' after)
    (ran : (nodes.mapM fun node => Run.attempt (step node)).from? state =
      some (.ok outcomes, between)) : interpreter.Leads scope nodes state between := by
  induction nodes generalizing state outcomes with
  | nil =>
      cases ran
      exact .nil _
  | cons node rest inductionHypothesis =>
      rw [List.mapM_cons] at ran
      rcases Run.bind_ended ran with ⟨_, _, same⟩ | ⟨outcome, middle, attempted, others⟩
      · cases same
      · obtain ⟨_, same, stepped⟩ := attempt_ended attempted
        cases same
        obtain ⟨outcome', ends⟩ := evaluates node state outcome middle stepped
        rcases Run.bind_ended others with ⟨_, _, same⟩ | ⟨values, last, ranRest, done⟩
        · cases same
        · cases done
          exact .cons ends (inductionHypothesis ranRest)

/-- If the step for an entry fails, then the failure is nested in the template. -/
theorem explains_of_failsAt {entries : List (String × Node)} {error : Error}
    (evaluates : ∀ node state outcome after, (step node).from? state = some (outcome, after) →
      ∃ outcome', interpreter.Ends scope node state outcome' after)
    (explains : ∀ node state, Fails state (step node) (interpreter.Explains scope node state))
    (failed : FailsAt step (entries.map Prod.snd) state error) :
    interpreter.Explains scope (.template entries) state error := by
  obtain ⟨before, node, rest, outcomes, between, after, split, ran, failed⟩ := failed
  obtain ⟨first, second, rfl, isBefore, isRest⟩ := List.map_eq_append_iff.mp split
  obtain ⟨entry, later, rfl, isNode, _⟩ := List.map_eq_cons_iff.mp isRest
  obtain ⟨key, found⟩ := entry
  obtain ⟨reason, isReason, known, unrendered, spells⟩ := explains node between error after failed
  refine ⟨reason, isReason, known, unrendered, ?_⟩
  cases isNode
  have leads := leads_of_attempts evaluates ran
  rw [← isBefore] at leads
  exact .entry leads spells

end Entries

section Templates

variable (explains : interpreter.ExplainsAll depth)

include explains

/-- An entry fails as the node in it does; a name in its place never fails. -/
theorem entry_fails (node : Node) (state : State) :
    Fails state (entry (interpreter.evaluate depth) scope node)
      (interpreter.Explains scope node state) := by
  cases node with
  | atom name => exact Fails.pure _
  | _ => exact explains scope _ state

omit explains in
theorem entry_ends (node : Node) (state : State) (outcome : Except Error Value) (after : State)
    (ran : (entry (interpreter.evaluate depth) scope node).from? state = some (outcome, after)) :
    ∃ outcome', interpreter.Ends scope node state outcome' after := by
  cases node with
  | atom name =>
      cases ran
      exact ⟨_, 1, rfl⟩
  | _ => exact ⟨outcome, depth, ran⟩

theorem materialize_fails (entries : List (String × Node)) :
    Fails state (materialize (interpreter.evaluate depth) scope entries)
      (interpreter.Explains scope (.template entries) state) := by
  have values : Fails state
      (forAll (entry (interpreter.evaluate depth) scope) (entries.map Prod.snd))
      (interpreter.Explains scope (.template entries) state) :=
    fun _ _ failed => explains_of_failsAt entry_ends (entry_fails explains) (forAll_failed failed)
  exact values.bind fun _ _ _ => Fails.pure _

end Templates

/-! ## Operations and writing -/

section Operations

variable (explains : interpreter.ExplainsAll depth)

include explains

theorem arithmetic_fails (evaluatedLeft : operator.evaluatesLeft)
    (evaluatedRight : operator.evaluatesRight) :
    Fails state (arithmetic (interpreter.evaluate depth) scope operator left right)
      (interpreter.Blames scope operator left right state) := by
  refine (both_fails explains evaluatedLeft evaluatedRight).bind fun values between _ => ?_
  obtain ⟨x, y⟩ := values
  dsimp only
  split
  · exact Fails.pure _
  · exact raises (by simp)
  · exact Fails.pure _
  · exact Fails.pure _
  · exact raises (by simp)

theorem equality_fails (evaluatedLeft : operator.evaluatesLeft)
    (evaluatedRight : operator.evaluatesRight) :
    Fails state (equality (interpreter.evaluate depth) scope operator left right)
      (interpreter.Blames scope operator left right state) := by
  refine (both_fails explains evaluatedLeft evaluatedRight).bind fun values between _ => ?_
  obtain ⟨x, y⟩ := values
  dsimp only
  split
  · refine Fails.bindStep (from?_heap between) ?_
    split
    · exact Fails.pure _
    · exact Fails.unfinished
  · exact raises (by simp)

omit explains in
theorem fieldUnder_fails (target key : Value) (wanted : Error → Prop) :
    Fails state (fieldUnder target key) wanted := by
  rw [fieldUnder]
  split
  · exact Fails.bindStep (from?_heap state) (Fails.pure _)
  · exact Fails.pure _

theorem field_fails :
    Fails state (field (interpreter.evaluate depth) scope left right)
      (interpreter.Blames scope .field left right state) := by
  cases right with
  | atom key =>
      refine (left_fails explains rfl).bind fun target between _ => ?_
      exact Fails.bindStep (from?_heap between) (Fails.pure _)
  | accessor name =>
      exact (both_fails explains rfl rfl).bind fun _ _ _ => fieldUnder_fails _ _ _
  | _ => exact raises (by simp)

theorem keyRead_fails :
    Fails state (keyRead (interpreter.evaluate depth) scope left right)
      (interpreter.Blames scope .keyRead left right state) :=
  (both_fails explains rfl rfl).bind fun _ _ _ => fieldUnder_fails _ _ _

omit explains in
theorem wantAction_fails (value : Value) :
    Fails between (wantAction operator value)
      (interpreter.Blames scope operator left right state) := by
  cases value with
  | action action => exact Fails.pure _
  | _ => exact raises (by simp)

theorem capture_fails :
    Fails state (capture (interpreter.evaluate depth) scope left right)
      (interpreter.Blames scope .capture left right state) := by
  refine (both_fails explains rfl rfl).bind fun values _ _ => ?_
  exact (wantAction_fails values.2).bind fun _ _ _ => Fails.pure _

omit explains in
theorem construct_fails :
    Fails state (construct right) (interpreter.Blames scope .construct left right state) := by
  rw [construct]
  split
  · refine Fails.map _ fun _ _ failed => ?_
    cases failed
  · exact raises (by simp)
  · exact raises (by simp)

theorem bind_fails :
    Fails state (bind (interpreter.evaluate depth) scope left right)
      (interpreter.Blames scope .bind left right state) := by
  cases left with
  | atom name =>
      refine (right_fails explains rfl (leads_nil rfl)).bind fun value between _ => ?_
      exact Fails.bindStep (from?_bindName scope name value between) (Fails.pure _)
  | _ => exact raises (by simp)

theorem append_fails :
    Fails state (append (interpreter.evaluate depth) scope left right)
      (interpreter.Blames scope .append left right state) := by
  refine (both_fails explains rfl rfl).bind fun values between _ => ?_
  obtain ⟨target, value⟩ := values
  cases target with
  | struct cell => exact Fails.bindStep (from?_modifyHeap _ between) (Fails.pure _)
  | _ => exact raises (by simp)

theorem stepKey_fails (node : Node) :
    Fails between (stepKey (interpreter.evaluate depth) scope node)
      (interpreter.Blames scope .assign left right state) := by
  cases node with
  | atom name => exact Fails.pure _
  | accessor name =>
      -- no trace spells a failure in an accessor
      have looked : Fails between (interpreter.evaluate depth scope (.accessor name))
          (interpreter.Blames scope .assign left right state) := by
        refine (explains scope (.accessor name) between).mono fun error explained => ?_
        obtain ⟨_, _, _, _, spells⟩ := explained
        cases spells
      refine looked.bind fun value _ _ => ?_
      split
      · exact Fails.pure _
      · exact raises (by simp)
  | _ => exact raises (by simp)

theorem targetFrom_fails (keys : List String) (node : Node) {between : State} :
    Fails between (targetFrom (interpreter.evaluate depth) scope keys node)
      (interpreter.Blames scope .assign left right state) := by
  cases node with
  | expression applied target key =>
      cases applied with
      | operator symbol =>
          rw [targetFrom]
          split
          · refine (stepKey_fails explains key).bind fun name _ _ => ?_
            exact targetFrom_fails (name :: keys) target
          · exact raises (by simp)
      | _ => exact raises (by simp)
  | atom root =>
      rw [targetFrom]
      split
      · exact raises (by simp)
      · exact Fails.pure _
  | _ => exact raises (by simp)

theorem assign_fails :
    Fails state (assign (interpreter.evaluate depth) scope left right)
      (interpreter.Blames scope .assign left right state) := by
  refine (right_fails explains rfl (leads_nil rfl)).bind fun value between _ => ?_
  refine (targetFrom_fails explains [] left).bind fun target last _ => ?_
  exact Fails.bindStep (from?_modifyHeap _ last) (Fails.pure _)

theorem result_fails :
    Fails state (result (interpreter.evaluate depth) scope right)
      (interpreter.Blames scope .result left right state) := by
  refine (right_fails explains rfl (leads_nil rfl)).bind fun value between _ => ?_
  exact Fails.bindStep (from?_bindName scope _ value between) (Fails.pure _)

end Operations

/-! ## Blocks -/

theorem returned_fails (inner : Cell) (wanted : Error → Prop) :
    Fails between (returned inner) wanted :=
  Fails.bindStep (from?_lookup inner Reserved.result between) (Fails.pure _)

mutual

theorem toValue_fails (arguments : List Value) (reply : Reply) (state : State)
    (wanted : Error → Prop) : Fails state (reply.toValue arguments) wanted := by
  cases reply with
  | sequence elements =>
      rw [Reply.toValue]
      refine (toValues_fails arguments elements state wanted).bind fun values between _ => ?_
      exact Fails.bindStep (from?_alloc _ between) (Fails.pure _)
  | _ =>
      rw [Reply.toValue]
      exact Fails.pure _

theorem toValues_fails (arguments : List Value) (replies : List Reply) (state : State)
    (wanted : Error → Prop) : Fails state (Reply.toValues arguments replies) wanted := by
  cases replies with
  | nil => exact Fails.pure _
  | cons reply rest =>
      rw [Reply.toValues]
      refine (toValue_fails arguments reply state wanted).bind fun value between _ => ?_
      exact (toValues_fails arguments rest between wanted).bind fun values _ _ => Fails.pure _

end

/-- A native function that fails fails for an external reason, and a host function never does. -/
theorem functionCall_fails (function : Function) (arguments : List Value) :
    Fails between (function.call arguments)
      (interpreter.Blames scope operator left right state) := by
  rw [Function.call]
  split
  · refine Fails.bindStep (from?_heap between) ?_
    split
    · exact Fails.pure _
    · exact Fails.pure _
  · split
    · exact toValue_fails _ _ _ _
    · exact raises (by simp)

section Blocks

variable (explains : interpreter.ExplainsAll depth)

include explains

omit explains in
theorem block_failed {body : List Node} {bindings : Table Value} {entered after : State}
    {error : Error}
    (failed : (block (interpreter.evaluate depth) body bindings).from? entered =
      some (.error error, after)) :
    ∃ inner statement between,
      interpreter.Enters body bindings entered inner statement between ∧
        (interpreter.evaluate depth inner statement).from? between =
          some (.error error, after) := by
  rw [block, Run.from?_bind_ok (from?_alloc bindings entered)] at failed
  rcases Run.bind_ended failed with ⟨error', failed, same⟩ | ⟨_, last, _, done⟩
  · cases same
    obtain ⟨before, statement, rest, between, split, ran, failed⟩ := statements_failed failed
    exact ⟨_, statement, between, ⟨depth, before, rest, split, rfl, ran⟩, failed⟩
  · exact nomatch done

theorem runsBlock_fails {body : List Node} {bindings : Table Value} {entered : State}
    (runs : interpreter.RunsBlock scope left right state operator body bindings entered) :
    Fails entered (block (interpreter.evaluate depth) body bindings)
      (interpreter.Blames scope operator left right state) := by
  intro error after failed
  obtain ⟨inner, statement, between, enters, failed⟩ := block_failed failed
  exact Or.inr ⟨inner, statement, between, .statement runs enters,
    explains inner statement between error after failed⟩

/-! ### Calls -/

theorem positional_fails (evaluated : operator.evaluatesRight)
    (leads : interpreter.Leads scope (if operator.evaluatesLeft then [left] else []) state
      between) :
    Fails between (positional (interpreter.evaluate depth) scope right)
      (interpreter.Blames scope operator left right state) := by
  cases right with
  | template entries =>
      intro error after failed
      have explained : interpreter.Explains scope (.template entries) between error :=
        explains_of_failsAt (fun node state outcome after ran => ⟨outcome, depth, ran⟩)
          (explains scope) (forAll_failed failed)
      exact Or.inr ⟨scope, _, between, .right evaluated leads, explained⟩
  | _ =>
      refine (right_fails explains evaluated leads).bind fun value last _ => ?_
      cases value with
      | struct cell => exact Fails.bindStep (from?_read cell last) (Fails.pure _)
      | _ => exact Fails.pure _

omit explains in
theorem ofValue_fails (value : Value) :
    Fails between (named.ofValue value) (interpreter.Blames scope operator left right state) := by
  cases value with
  | struct cell => exact fun _ _ failed => nomatch failed
  | void => exact Fails.pure _
  | _ => exact raises (by simp)

theorem named_fails (evaluated : operator.evaluatesRight)
    (leads : interpreter.Leads scope (if operator.evaluatesLeft then [left] else []) state
      between) :
    Fails between (named (interpreter.evaluate depth) scope right)
      (interpreter.Blames scope operator left right state) := by
  have value : Fails between (interpreter.evaluate depth scope right >>= named.ofValue)
      (interpreter.Blames scope operator left right state) :=
    (right_fails explains evaluated leads).bind fun value _ _ => ofValue_fails value
  cases right with
  | template entries =>
      refine (materialize_fails explains entries).mono fun error explained => ?_
      exact Or.inr ⟨scope, _, between, .right evaluated leads, explained⟩
  | atom name =>
      refine Fails.bindStep (from?_lookup scope name between) ?_
      split
      · exact Fails.pure _
      · exact value
  | _ => exact value

theorem call_fails :
    Fails state (call (interpreter.evaluate depth) scope left right)
      (interpreter.Blames scope .call left right state) := by
  refine (left_fails explains rfl).bind fun callee middle ranLeft => ?_
  have leads : interpreter.Leads scope [left] state middle :=
    .cons ⟨depth, ranLeft⟩ (.nil middle)
  cases callee with
  | function function =>
      exact (positional_fails explains rfl leads).bind fun arguments _ _ =>
        functionCall_fails function arguments
  | action action =>
      refine (named_fails explains rfl leads).bind fun arguments entered ranRight => ?_
      have ranCaptured := from?_captured action entered
      refine Fails.bindStep ranCaptured ?_
      have runs : interpreter.RunsBlock scope left right state .call _ _ entered :=
        .called ⟨depth, ranLeft⟩ ranRight ranCaptured
      exact (runsBlock_fails explains runs).bind fun inner _ _ => returned_fails inner _
  | _ => exact raises (by simp)

/-! ### Conditionals and loops -/

theorem branch_fails :
    Fails state (branch (interpreter.evaluate depth) scope left right)
      (interpreter.Blames scope .branch left right state) := by
  refine (both_fails explains rfl rfl).bind fun values entered ranBoth => ?_
  obtain ⟨condition, body⟩ := values
  obtain ⟨middle, ranLeft, ranRight⟩ := both_succeeded ranBoth
  dsimp only at ranLeft ranRight ⊢
  split
  · exact Fails.pure _
  · rename_i notVoid
    cases body with
    | action action =>
        refine Fails.bindStep (from?_pure action entered) ?_
        refine Fails.bindStep (from?_read scope entered) ?_
        have runs : interpreter.RunsBlock scope left right state .branch _ _ entered :=
          .branched ⟨depth, ranLeft⟩ ⟨depth, ranRight⟩ notVoid
        exact (runsBlock_fails explains runs).bind fun _ _ _ => Fails.pure _
    | _ => exact Fails.bind (wantAction_fails _) fun _ _ ran => nomatch ran

theorem loopFrom_fails {sequence : Value} {action : Action} {earlier later : List Value}
    {middle begun entered : State}
    (ranLeft : (interpreter.evaluate depth scope left).from? state = some (.ok sequence, middle))
    (ranRight : (interpreter.evaluate depth scope right).from? middle =
      some (.ok (.action action), begun))
    (elements : begun.heap.elements? sequence = some (earlier ++ later))
    (looped : (loopFrom (interpreter.evaluate depth) action 0 earlier).from? begun =
      some (.ok (), entered)) :
    Fails entered (loopFrom (interpreter.evaluate depth) action earlier.length later)
      (interpreter.Blames scope .each left right state) := by
  -- on the elements still to come; that the loop got past the earlier ones is carried along
  induction later generalizing earlier entered with
  | nil => exact Fails.pure _
  | cons element rest inductionHypothesis =>
      have ranCaptured := from?_captured action entered
      rw [loopFrom]
      refine Fails.bindStep ranCaptured ?_
      have runs : interpreter.RunsBlock scope left right state .each _ _ entered :=
        .looped ⟨depth, ranLeft⟩ ⟨depth, ranRight⟩ elements looped ranCaptured
      refine (runsBlock_fails explains runs).bind fun inner last ranBlock => ?_
      have loopedOn : (loopFrom (interpreter.evaluate depth) action 0
          (earlier ++ [element])).from? begun = some (.ok (), last) := by
        rw [loopFrom_append, Run.from?_bind_ok looped, Nat.zero_add, loopFrom,
          Run.from?_bind_ok ranCaptured, Run.from?_bind_ok ranBlock]
        rfl
      have split : earlier ++ element :: rest = earlier ++ [element] ++ rest := by simp
      -- the next position counts the element that is now an earlier one
      have fails := inductionHypothesis (split ▸ elements) loopedOn
      rwa [List.length_append] at fails

theorem each_fails :
    Fails state (each (interpreter.evaluate depth) scope left right)
      (interpreter.Blames scope .each left right state) := by
  refine (both_fails explains rfl rfl).bind fun values begun ranBoth => ?_
  obtain ⟨sequence, body⟩ := values
  obtain ⟨middle, ranLeft, ranRight⟩ := both_succeeded ranBoth
  cases body with
  | action action =>
      refine Fails.bindStep (from?_pure action begun) ?_
      refine Fails.bindStep (from?_heap begun) ?_
      dsimp only at ranLeft ranRight ⊢
      split
      · rename_i elements isElements
        have fromFirst : begun.heap.elements? sequence = some ([] ++ elements) := isElements
        have loop := loopFrom_fails explains ranLeft ranRight fromFirst rfl
        exact loop.bind fun _ _ _ => Fails.pure _
      · exact raises (by simp)
  | _ => exact Fails.bind (wantAction_fails _) fun _ _ ran => nomatch ran

/-! ## Exchange -/

omit explains in
theorem wantName_fails (node : Node) :
    Fails between (wantName node) (interpreter.Blames scope operator left right state) := by
  rw [wantName]
  split
  · exact Fails.pure _
  · exact raises (by simp)

omit explains in
theorem declareModule_fails :
    Fails state (declareModule scope right)
      (interpreter.Blames scope .declareModule left right state) :=
  (wantName_fails right).bind fun _ between _ =>
    Fails.bindStep (from?_bindName scope _ _ between) (Fails.pure _)

theorem exportModule_fails :
    Fails state (exportModule (interpreter.evaluate depth) scope right)
      (interpreter.Blames scope .exportModule left right state) := by
  refine Fails.bindStep (from?_lookup scope Reserved.moduleName state) ?_
  split
  · exact raises (by simp)
  · refine (right_fails explains rfl (leads_nil rfl)).bind fun value between _ => ?_
    exact Fails.bindStep (from?_bindName scope _ value between) (Fails.pure _)

omit explains in
/-- What a loader, parser or library refuses is the reason of a failure as it stands. -/
theorem ofCollaborator_fails {α : Type} (answer : Except Collaborator α) :
    Fails between (Run.ofCollaborator answer)
      (interpreter.Blames scope operator left right state) := by
  cases answer with
  | ok value => exact Fails.pure _
  | error cause => exact raises (by simp)

omit explains in
theorem importPath_fails (config : ImportConfig) :
    Fails between (importPath config right)
      (interpreter.Blames scope operator left right state) := by
  unfold importPath
  split
  · exact Fails.pure _
  · exact Fails.pure _
  · exact raises (by simp)

theorem importModule_fails :
    Fails state (importModule interpreter (interpreter.evaluate depth) scope right)
      (interpreter.Blames scope .importModule left right state) := by
  refine (importPath_fails interpreter.config).bind fun path between ranPath => ?_
  obtain rfl := from?_importPath _ _ ranPath
  refine Fails.bindStep (from?_fresh between) ?_
  refine (ofCollaborator_fails _).bind fun statements entered ranLoad => ?_
  obtain ⟨answered, rfl⟩ := from?_ofCollaborator_ok ranLoad
  have runs : interpreter.RunsBlock scope left right between .importModule statements []
      between.entered := .imported ranPath answered
  refine Fails.bindStep (from?_alloc [] _) ?_
  -- the module's scope is the cell just allocated, and a program begins with what that cell holds
  have fails : Fails between.entered
      (program (interpreter.evaluate depth) statements between.heap.size)
      (interpreter.Blames scope .importModule left right between) := by
    refine Fails.bindStep (from?_read between.heap.size between.entered) ?_
    have empty : between.entered.heap.read between.heap.size = [] :=
      Heap.read_alloc_self between.heap []
    rw [empty]
    exact runsBlock_fails explains runs
  refine fails.bind fun loaded after _ => ?_
  refine Fails.bindStep (from?_lookup loaded Reserved.moduleName after) ?_
  split
  · refine Fails.bindStep (from?_lookup loaded Reserved.exported after) ?_
    exact Fails.bindStep (from?_bindName scope _ _ after) (Fails.pure _)
  · exact raises (by simp)

omit explains in
theorem requiredPath_fails :
    Fails between (requiredPath right) (interpreter.Blames scope operator left right state) := by
  cases right with
  | template entries => exact Fails.mapM fun node _ => wantName_fails node
  | _ => exact (wantName_fails _).bind fun _ _ _ => Fails.pure _

omit explains in
theorem requireForeign_fails :
    Fails state (requireForeign interpreter right)
      (interpreter.Blames scope .requireForeign left right state) := by
  refine requiredPath_fails.bind fun path _ _ => ?_
  refine (ofCollaborator_fails _).bind fun run between _ => ?_
  exact Fails.bindStep (from?_fresh between) (Fails.pure _)

theorem print_fails :
    Fails state (print interpreter (interpreter.evaluate depth) scope right)
      (interpreter.Blames scope .print left right state) := by
  refine (right_fails explains rfl (leads_nil rfl)).bind fun value between _ => ?_
  split
  · exact Fails.pure _
  · refine Fails.bindStep (from?_heap between) ?_
    exact Fails.bindStep (from?_printLine _ between) (Fails.pure _)

end Blocks

end Rule

/-! ## Nodes -/

namespace Interpreter

variable (interpreter : Interpreter) {depth : Nat} {scope : Cell} {state : State}

theorem apply_fails (explains : interpreter.ExplainsAll depth) (operator : Operator)
    (left right : Node) :
    Fails state (interpreter.apply (interpreter.evaluate depth) scope operator left right)
      (interpreter.Blames scope operator left right state) := by
  cases operator with
  | bind => exact Rule.bind_fails explains
  | add => exact Rule.arithmetic_fails explains rfl rfl
  | subtract => exact Rule.arithmetic_fails explains rfl rfl
  | equal => exact Rule.equality_fails explains rfl rfl
  | notEqual => exact Rule.equality_fails explains rfl rfl
  | field => exact Rule.field_fails explains
  | keyRead => exact Rule.keyRead_fails explains
  | capture => exact Rule.capture_fails explains
  | call => exact Rule.call_fails explains
  | branch => exact Rule.branch_fails explains
  | each => exact Rule.each_fails explains
  | append => exact Rule.append_fails explains
  | assign => exact Rule.assign_fails explains
  | construct => exact Rule.construct_fails
  | declareModule => exact Rule.declareModule_fails
  | exportModule => exact Rule.exportModule_fails explains
  | importModule => exact Rule.importModule_fails explains
  | requireForeign => exact Rule.requireForeign_fails
  | print => exact Rule.print_fails explains
  | result => exact Rule.result_fails explains

/-- An expression that applies an operator notes it on the errors of the rule, outermost so far. -/
theorem tagged_explains {operator : Operator} {left right : Node} {after : State}
    {error : Error}
    (failed : (interpreter.apply (interpreter.evaluate depth) scope operator left right).from?
      state = some (.error error, after))
    (blames : interpreter.Blames scope operator left right state error) :
    interpreter.Explains scope (.expression (.operator operator.symbol) left right) state
      (error.tag operator) := by
  rcases blames with ⟨reason, known, rfl⟩ | ⟨inner, node, between, under, explained⟩
  · -- raised by the rule itself: the operator is the whole trace
    exact ⟨reason, rfl, known, rfl, .own failed⟩
  · obtain ⟨reason, isReason, known, unrendered, spells⟩ := explained
    have isError : error =
        { reason := some reason, locations := error.locations.reverse.reverse } := by
      rw [List.reverse_reverse, ← isReason, ← unrendered]
    have outermost :
        (error.tag operator).locations.reverse = operator :: error.locations.reverse := by
      simp [Error.tag]
    refine ⟨reason, isReason, known, unrendered, ?_⟩
    rw [isError] at failed
    rw [outermost]
    exact .under failed under spells

theorem step_explains (explains : interpreter.ExplainsAll depth) :
    interpreter.ExplainsAll (depth + 1) := by
  intro scope node state
  have malformed : ∀ {node : Node} {reason : Reason}, reason ≠ .unknown →
      interpreter.Spells scope node state [] reason →
      interpreter.Explains scope node state (Error.ofReason reason) :=
    fun known spells => ⟨_, rfl, known, rfl, spells⟩
  cases node with
  | expression applied left right =>
      intro error after failed
      cases applied with
      | operator symbol =>
          cases spelled : Operator.ofSymbol? symbol with
          | none =>
              simp only [evaluate, step, operatorOf, spelled] at failed
              cases failed
              exact malformed (by simp) (.unknownOperator spelled)
          | some operator =>
              rw [← Operator.ofSymbol?_eq_some_iff.mp spelled] at failed ⊢
              rw [evaluate_operator, Run.from?_tagged, Option.map_eq_some_iff] at failed
              obtain ⟨⟨outcome, reached⟩, ran, same⟩ := failed
              cases outcome with
              | ok value => cases same
              | error inner =>
                  cases same
                  exact interpreter.tagged_explains ran
                    (interpreter.apply_fails explains operator left right inner after ran)
      | _ =>
          cases failed
          exact malformed (by simp) (.notAnOperator (by simp))
  | operator symbol => exact Fails.fail (malformed (by simp) (.stray symbol))
  | atom name => exact Fails.bindStep (from?_lookup scope name state) (Fails.pure _)
  | accessor name => exact Fails.bindStep (from?_lookup scope name state) (Fails.pure _)
  | constant value => exact Fails.pure _
  | action label body => exact Fails.pure _
  | template entries =>
      refine (Rule.materialize_fails explains entries).bind fun table between _ => ?_
      exact Fails.bindStep (from?_alloc table between) (Fails.pure _)

/-- Every failure of an evaluation has a trace that spells how it is nested. -/
theorem evaluate_explains (depth : Nat) : interpreter.ExplainsAll depth := by
  induction depth with
  | zero => exact fun _ _ _ => Fails.unfinished
  | succ depth inductionHypothesis => exact interpreter.step_explains inductionHypothesis

end Interpreter

end Tabula
