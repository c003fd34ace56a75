import Mathlib.Data.List.Induction
import Tabula.Proofs.Assignment
import Tabula.Proofs.Discipline.Rules
import Tabula.Proofs.Operands

/-!
# What a called action starts with, and what the call yields

The body of an action runs in a new scope. On top stands the calling scope under its reserved name;
below it the bindings of the captured scope, as they are when the call is made; and below them the
arguments. The value that an earlier block left in the captured scope is left out. One that stands
among the arguments is not left out, and if the body leaves no value of its own, the call yields it.
-/

namespace Tabula

/-- The node that calls its left operand. -/
def Node.calling (callee arguments : Node) : Node :=
  .expression (.operator Operator.call.symbol) callee arguments

/-- The node that binds a name. -/
def Node.binding (name : String) (value : Node) : Node :=
  .expression (.operator Operator.bind.symbol) (.atom name) value

/-- The node that assigns below a name. -/
def Node.assigning (root : String) (keys : List String) (value : Node) : Node :=
  .expression (.operator Operator.assign.symbol) (.fieldChain root keys) value

namespace Rule

/-- What a called action starts with, given what it captured, its arguments, and the calling scope.
-/
def startTable (closure arguments : Table Value) (caller : Cell) : Table Value :=
  (arguments.overlay (closure.filter fun entry => entry.1 ≠ Reserved.result)).insert
    Reserved.caller (.struct caller)

/-- The names of the arguments, then the captured names that are left, then the caller's name if it
is not among them. -/
def startKeys (closure arguments : Table Value) : List String :=
  let names := arguments.keys ++
    closure.keys.filter fun key => key ∉ arguments.keys ∧ key ≠ Reserved.result
  if Reserved.caller ∈ names then names else names ++ [Reserved.caller]

/-- In this table the caller's name leads to the calling scope, and every other name but that of
the block's value to what was captured, or else to the argument. -/
structure Overlays (start closure arguments : Table Value) (caller : Cell) : Prop where
  caller : start.get? Reserved.caller = some (.struct caller)
  names : ∀ key, key ≠ Reserved.caller → key ≠ Reserved.result →
    start.get? key = (closure.get? key).or (arguments.get? key)
  keys : start.keys = startKeys closure arguments

end Rule

/-! ## The table that a called action starts with -/

namespace Table

variable {α : Type}

theorem keys_filter (table : Table α) (keep : String → Bool) :
    keys (table.filter fun entry => keep entry.1) = table.keys.filter keep := by
  rw [keys, keys, List.filter_map]
  rfl

theorem get?_overlay_of_absent {table : Table α} {entries : List (String × α)} {key : String}
    (absent : key ∉ keys entries) : (table.overlay entries).get? key = table.get? key := by
  induction entries generalizing table with
  | nil => rfl
  | cons entry rest inductionHypothesis =>
      rw [keys, List.map_cons, List.mem_cons, not_or] at absent
      rw [overlay_cons, inductionHypothesis absent.2, get?_insert, if_neg (Ne.symm absent.1)]

end Table

namespace Rule

theorem get?_startTable_result (closure arguments : Table Value) (caller : Cell) :
    (startTable closure arguments caller).get? Reserved.result =
      arguments.get? Reserved.result := by
  have apart : Reserved.caller ≠ Reserved.result := by decide
  -- the filter takes the captured value out, so only the one among the arguments is left
  have absent : Reserved.result ∉
      Table.keys (closure.filter fun entry => entry.1 ≠ Reserved.result) := by
    rw [Table.keys_filter closure fun key => key ≠ Reserved.result]
    simp
  rw [startTable, Table.get?_insert, if_neg apart, Table.get?_overlay_of_absent absent]

theorem keys_startTable {closure : Table Value} (distinct : closure.Distinct)
    (arguments : Table Value) (caller : Cell) :
    (startTable closure arguments caller).keys = startKeys closure arguments := by
  have overlaid :
      (arguments.overlay (closure.filter fun entry => entry.1 ≠ Reserved.result)).keys =
        arguments.keys ++
          closure.keys.filter fun key => key ∉ arguments.keys ∧ key ≠ Reserved.result := by
    rw [Table.keys_overlay (distinct.filter _),
      Table.keys_filter closure fun key => key ≠ Reserved.result, List.filter_filter]
    simp only [Bool.decide_and, ne_eq]
  rw [startTable, Table.keys_insert, overlaid]
  rfl

theorem overlays_startTable {closure : Table Value} (distinct : closure.Distinct)
    (arguments : Table Value) (caller : Cell) :
    Overlays (startTable closure arguments caller) closure arguments caller where
  caller := by rw [startTable, Table.get?_insert, if_pos rfl]
  names := by
    intro key notCaller notResult
    have kept : (closure.get? key).filter (fun _ => decide (key ≠ Reserved.result)) =
        closure.get? key := by
      cases closure.get? key with
      | none => rfl
      | some value => rw [Option.filter_some, if_pos (decide_eq_true notResult)]
    rw [startTable, Table.get?_insert, if_neg (Ne.symm notCaller),
      Table.get?_overlay (distinct.filter _), Table.get?_filter distinct, kept]
  keys := keys_startTable distinct arguments caller

/-! ## The run of a call -/

theorem from?_invoke (eval : Evaluator) (scope : Cell) (action : Action)
    (arguments : Table Value) (state : State) :
    (invoke eval scope action arguments).from? state =
      (block eval action.body (startTable (state.heap.captured action) arguments scope) >>=
        returned).from? state :=
  Run.from?_bind_ok (from?_captured action state)

/-- A called action runs in a new cell that holds the table it starts with, and the call yields
what is left there as the value of the block. -/
theorem from?_invoke_statements (eval : Evaluator) (scope : Cell) (action : Action)
    (arguments : Table Value) (state : State) :
    (invoke eval scope action arguments).from? state =
      (statements eval state.heap.size action.body >>= fun _ => returned state.heap.size).from?
        (state.entering (startTable (state.heap.captured action) arguments scope)) := by
  rw [from?_invoke, from?_block_bind]

theorem from?_call {eval : Evaluator} {scope : Cell} {callee operand : Node} {action : Action}
    {arguments : Table Value} {before called start : State}
    (calleeRan : (eval scope callee).from? before = some (.ok (.action action), called))
    (argumentsRan : (named eval scope operand).from? called = some (.ok arguments, start)) :
    (call eval scope callee operand).from? before =
      (invoke eval scope action arguments).from? start := by
  rw [call, Run.from?_bind_ok calleeRan, Run.from?_bind_ok argumentsRan]

/-- The target of an assignment is the root with the keys below it, the last one first. -/
theorem from?_targetFrom (eval : Evaluator) (scope : Cell) (root : String)
    (keys further : List String) (below : keys ++ further ≠ []) (state : State) :
    (targetFrom eval scope further (Node.fieldChain root keys)).from? state =
      some (.ok ⟨root, (keys ++ further).reverse⟩, state) := by
  induction keys using List.reverseRecOn generalizing further with
  | nil =>
      have notEmpty : further.isEmpty = false := by
        rw [List.isEmpty_eq_false_iff]
        exact below
      rw [Node.fieldChain, List.foldl_nil, targetFrom, notEmpty]
      rfl
  | append_singleton keys key inductionHypothesis =>
      have chain : Node.fieldChain root (keys ++ [key]) =
          .expression (.operator Operator.field.symbol) (Node.fieldChain root keys)
            (.atom key) := by
        rw [Node.fieldChain, List.foldl_append]
        rfl
      rw [chain, targetFrom, if_pos rfl, List.append_assoc, List.singleton_append]
      exact inductionHypothesis (key :: further) (by simp)

end Rule

/-! ## Writing from inside the new scope -/

/-- A discipline that demands nothing. -/
def Discipline.lenient : Discipline where
  writable _ _ := True
  readable _ _ := True
  shape _ := True
  kept _ := True
  writable_mono _ held := held
  readable_mono _ held := held
  readable_of_writable held := held
  shape_nil := trivial
  shape_insert _ _ _ := trivial
  read := by
    intro state cell _ _
    refine ⟨trivial, fun value _ => ?_⟩
    cases value <;> simp [Value.Within]
  alloc _ _ _ := trivial
  writable_alloc _ := trivial
  insert _ _ _ _ := trivial
  fresh kept := kept
  print _ kept := kept

theorem Heap.get?_store_of_replaces {heap : Heap} {cell : Cell} {key : String} {value : Value}
    (allocated : cell < heap.size)
    (replaces : value.cell? = none ∨ ¬ heap.HoldsStruct (cell, key)) :
    (heap.store cell key value).get? cell key = some value := by
  have noStruct : value.cell? = none ∨ (heap.get? cell key).bind Value.cell? = none := by
    refine replaces.imp_right fun missing => ?_
    cases found : heap.get? cell key with
    | none => rfl
    | some held =>
        cases held with
        | struct inner => exact absurd ⟨inner, found⟩ missing
        | _ => rfl
  rw [store, storeWithin_of_replaces _ _ noStruct, Option.getD_some]
  exact heap.get?_insert_self key value allocated

namespace Interpreter

variable (interpreter : Interpreter) {depth : Nat} {scope caller : Cell} {right : Node}
  {before after : State} {value : Value}

theorem size_le_of_evaluated {node : Node} {outcome : Except Error Value}
    (ran : (interpreter.evaluate depth scope node).from? before = some (outcome, after)) :
    before.heap.size ≤ after.heap.size := by
  have governs : Discipline.lenient.Governs (interpreter.evaluate depth) :=
    Discipline.governs_evaluate interpreter depth
  exact (governs before scope node trivial trivial _ _ ran).grown

/-- What a program binds in a scope is written to that scope and to no other cell. -/
def BindsOnlyIn (scope : Cell) : Prop :=
  ∀ (depth : Nat) (name : String) (right : Node) (before after : State) (value : Value),
    scope < before.heap.size →
    (interpreter.evaluate (depth + 1) scope (Node.binding name right)).from? before =
      some (.ok value, after) →
    ∃ bound between,
      (interpreter.evaluate depth scope right).from? before = some (.ok bound, between) ∧
        after.heap.get? scope name = some bound ∧
        ∀ other, other ≠ scope → after.heap.read other = between.heap.read other

/-- What a program assigns in a scope below the caller's name is assigned in the calling scope, as
long as the name leads there; a value that replaces what was there is then found there. -/
def AssignsInCaller (scope caller : Cell) : Prop :=
  ∀ (depth : Nat) (key : String) (keys : List String) (right : Node) (before after : State)
      (value : Value),
    caller < before.heap.size →
    (interpreter.evaluate (depth + 1) scope
        (Node.assigning Reserved.caller (key :: keys) right)).from? before =
      some (.ok value, after) →
    ∃ assigned between,
      (interpreter.evaluate depth scope right).from? before = some (.ok assigned, between) ∧
        (between.heap.get? scope Reserved.caller = some (.struct caller) →
          after.heap = between.heap.storeAt caller (key :: keys) assigned ∧
            (keys = [] → assigned.cell? = none ∨ ¬ between.heap.HoldsStruct (caller, key) →
              after.heap.get? caller key = some assigned))

theorem evaluated_operator {operator : Operator} {left : Node}
    (ran : (interpreter.evaluate (depth + 1) scope
        (.expression (.operator operator.symbol) left right)).from? before =
      some (.ok value, after)) :
    (interpreter.apply (interpreter.evaluate depth) scope operator left right).from? before =
      some (.ok value, after) := by
  rw [interpreter.evaluate_operator, Run.from?_tagged, Option.map_eq_some_iff] at ran
  obtain ⟨⟨outcome, reached⟩, ran, same⟩ := ran
  cases outcome with
  | error error => exact nomatch same
  | ok found =>
      cases same
      exact ran

theorem bindsOnlyIn (scope : Cell) : interpreter.BindsOnlyIn scope := by
  intro depth name right before after value allocated ran
  rcases Run.bind_ended (interpreter.evaluated_operator ran) with
    ⟨error, _, impossible⟩ | ⟨bound, between, ranRight, bindRan⟩
  · exact nomatch impossible
  · -- the right operand may have allocated cells, but it takes none away
    have stillAllocated : scope < between.heap.size :=
      Nat.lt_of_lt_of_le allocated (interpreter.size_le_of_evaluated ranRight)
    cases bindRan
    exact ⟨bound, between, ranRight,
      between.heap.get?_insert_self name bound stillAllocated,
      fun other different => between.heap.read_insert_of_ne name bound (Ne.symm different)⟩

theorem assignsInCaller (scope caller : Cell) : interpreter.AssignsInCaller scope caller := by
  intro depth key keys right before after value allocated ran
  rcases Run.bind_ended (interpreter.evaluated_operator ran) with
    ⟨error, _, impossible⟩ | ⟨assigned, between, ranRight, assignRan⟩
  · exact nomatch impossible
  have target := Rule.from?_targetFrom (interpreter.evaluate depth) scope Reserved.caller
    (key :: keys) [] (List.cons_ne_nil key _) between
  rw [List.append_nil] at target
  rw [Run.from?_bind_ok target] at assignRan
  cases assignRan
  have stillAllocated : caller < between.heap.size :=
    Nat.lt_of_lt_of_le allocated (interpreter.size_le_of_evaluated ranRight)
  refine ⟨assigned, between, ranRight, fun receiver => ?_⟩
  have stored :
      between.heap.assign scope ⟨Reserved.caller, (key :: keys).reverse⟩ assigned =
        between.heap.storeAt caller (key :: keys) assigned := by
    rw [Heap.assign_eq_storeAt _ _ _ _ (List.cons_ne_nil key keys),
      Heap.storeAt_cons _ _ _ _ (List.cons_ne_nil key keys), Heap.enter_of_struct receiver]
  refine ⟨stored, ?_⟩
  rintro rfl replaces
  dsimp only
  rw [stored]
  exact Heap.get?_store_of_replaces stillAllocated replaces

end Interpreter

/-! ## Main results -/

/-- A called action starts in a new cell. Its table binds the caller's name to the calling scope,
and every other name but that of the block's value to what the captured scope holds when the body
starts, or else to the argument; the names of the arguments come first, then the captured ones that
are left. What the body binds is written to the new cell alone, and what it assigns below the
caller's name is assigned in the calling scope. -/
theorem call_starts_in_overlay (interpreter : Interpreter) {depth : Nat} {scope : Cell}
    {callee operand : Node} {action : Action} {arguments : Table Value}
    {before called start : State}
    (calleeRan : (interpreter.evaluate depth scope callee).from? before =
      some (.ok (.action action), called))
    (argumentsRan : (Rule.named (interpreter.evaluate depth) scope operand).from? called =
      some (.ok arguments, start))
    (distinct : (start.heap.captured action).Distinct) :
    ∃ table, Rule.Overlays table (start.heap.captured action) arguments scope ∧
      (interpreter.evaluate (depth + 1) scope (Node.calling callee operand)).from? before =
        (Run.tagged .call
          (Rule.statements (interpreter.evaluate depth) start.heap.size action.body >>=
            fun _ => Rule.returned start.heap.size)).from? (start.entering table) ∧
      (start.entering table).heap.read start.heap.size = table ∧
      (∀ cell < start.heap.size,
        (start.entering table).heap.read cell = start.heap.read cell) ∧
      interpreter.BindsOnlyIn start.heap.size ∧
      interpreter.AssignsInCaller start.heap.size scope := by
  refine ⟨Rule.startTable (start.heap.captured action) arguments scope,
    Rule.overlays_startTable distinct arguments scope, ?_, start.heap.read_alloc_self _, ?_,
    interpreter.bindsOnlyIn _, interpreter.assignsInCaller _ _⟩
  · rw [Node.calling, interpreter.evaluate_operator, Run.from?_tagged, Run.from?_tagged]
    simp only [Interpreter.apply]
    rw [Rule.from?_call calleeRan argumentsRan, Rule.from?_invoke_statements]
  · intro cell old
    exact start.heap.read_alloc_of_ne _ (Nat.ne_of_lt old)

/-- Binds a name and assigns below the caller's name. -/
private def bindsAndAssigns : List Node :=
  [Node.binding "local" (.atom "b"), Node.assigning Reserved.caller ["seen"] (.atom "b")]

/-- A scope that holds a captured action, and the scope that the action was captured in, which
holds its own caller and the value of an earlier block. -/
private def holdsCaptured : State :=
  { heap := ⟨#[
      [("f", .action ⟨⟨0, []⟩, bindsAndAssigns, some 1⟩)],
      [("b", .bool true), (Reserved.result, .bool false), (Reserved.caller, .void)]]⟩ }

theorem captured_binding_hides_argument :
    ∃ table after,
      Rule.Overlays table (holdsCaptured.heap.read 1) [("a", .void), ("b", .bool false)] 0 ∧
        (holdsCaptured.entering table).heap.read 2 = table ∧
        table.keys = ["a", "b", Reserved.caller] ∧
        (({} : Interpreter).evaluate 4 0 (Node.calling (.atom "f")
            (.template [("a", .void), ("b", .constant (.bool false))]))).from? holdsCaptured =
          some (.ok .void, after) ∧
        after.heap.get? 2 "local" = some (.bool true) ∧
        after.heap.get? 0 "local" = none ∧
        after.heap.get? 0 "seen" = some (.bool true) := by
  have calleeRan : (({} : Interpreter).evaluate 3 0 (.atom "f")).from? holdsCaptured =
      some (.ok (.action ⟨⟨0, []⟩, bindsAndAssigns, some 1⟩), holdsCaptured) := rfl
  have argumentsRan : (Rule.named (({} : Interpreter).evaluate 3) 0
      (.template [("a", .void), ("b", .constant (.bool false))])).from? holdsCaptured =
      some (.ok [("a", .void), ("b", .bool false)], holdsCaptured) := rfl
  have distinct : (holdsCaptured.heap.read 1).Distinct := by
    rw [Table.Distinct]
    decide
  obtain ⟨table, overlays, _, entered, _⟩ :=
    call_starts_in_overlay {} calleeRan argumentsRan distinct
  exact ⟨table, _, overlays, entered, overlays.keys, rfl, rfl, rfl, rfl⟩

/-- If the body of a called action succeeds and leaves the value of its block as it found it, then
the call yields the value that stands among the arguments, or void if there is none. -/
theorem call_without_own_result (interpreter : Interpreter) {depth : Nat} {scope inner : Cell}
    {callee operand : Node} {action : Action} {arguments : Table Value}
    {before called start after : State}
    (calleeRan : (interpreter.evaluate depth scope callee).from? before =
      some (.ok (.action action), called))
    (argumentsRan : (Rule.named (interpreter.evaluate depth) scope operand).from? called =
      some (.ok arguments, start))
    (ran : (Rule.block (interpreter.evaluate depth) action.body
        (Rule.startTable (start.heap.captured action) arguments scope)).from? start =
      some (.ok inner, after))
    (silent : after.heap.get? inner Reserved.result =
      (Rule.startTable (start.heap.captured action) arguments scope).get? Reserved.result) :
    (interpreter.evaluate (depth + 1) scope (Node.calling callee operand)).from? before =
      some (.ok ((arguments.get? Reserved.result).getD .void), after) := by
  have yielded : (Rule.invoke (interpreter.evaluate depth) scope action arguments).from? start =
      some (.ok ((arguments.get? Reserved.result).getD .void), after) := by
    rw [Rule.get?_startTable_result] at silent
    rw [Rule.from?_invoke, Run.from?_bind_ok ran, Rule.returned,
      Run.from?_bind_ok (Run.from?_lookup inner Reserved.result after), silent,
      Run.from?_pure]
  rw [Node.calling, interpreter.evaluate_operator, Run.from?_tagged]
  simp only [Interpreter.apply]
  rw [Rule.from?_call calleeRan argumentsRan, yielded]
  rfl

theorem captured_result_is_not_yielded :
    holdsCaptured.heap.get? 1 Reserved.result = some (.bool false) ∧
      ∃ after, (({} : Interpreter).evaluate 4 0 (Node.calling (.atom "f") .void)).from?
        holdsCaptured = some (.ok .void, after) := by
  have calleeRan : (({} : Interpreter).evaluate 3 0 (.atom "f")).from? holdsCaptured =
      some (.ok (.action ⟨⟨0, []⟩, bindsAndAssigns, some 1⟩), holdsCaptured) := rfl
  have argumentsRan : (Rule.named (({} : Interpreter).evaluate 3) 0 .void).from? holdsCaptured =
      some (.ok [], holdsCaptured) := rfl
  exact ⟨rfl, _, call_without_own_result {} calleeRan argumentsRan rfl rfl⟩

/-- A scope in which a value was left, and the scope of an action that was called from it. -/
private def leftValue : State :=
  { heap := ⟨#[
      [(Reserved.result, .bool true)],
      [("f", .action ⟨⟨0, []⟩, [], none⟩), (Reserved.caller, .struct 0)]]⟩ }

/-- An action that does nothing, called with the calling scope as its arguments, yields the value
that was left there. -/
theorem caller_as_arguments_yields_its_result :
    ∃ after,
      (Rule.block (({} : Interpreter).evaluate 2) []
          (Rule.startTable [] (leftValue.heap.read 0) 1)).from? leftValue =
        some (.ok 2, after) ∧
      after.heap.get? 2 Reserved.result =
        (Rule.startTable [] (leftValue.heap.read 0) 1).get? Reserved.result ∧
      (({} : Interpreter).evaluate 3 1
          (Node.calling (.atom "f") (.atom Reserved.caller))).from? leftValue =
        some (.ok (.bool true), after) :=
  ⟨_, rfl, rfl, rfl⟩

end Tabula
