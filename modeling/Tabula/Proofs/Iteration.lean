import Tabula.Proofs.Operands

/-!
# Loops run over a snapshot

A loop takes the elements of its struct once, before the first run, and runs the action for each of
them in order. Every run starts in a new scope: a copy of the captured scope as it stands at that
moment, with the element and its position on top. So the body may change the struct and the captured
scope at will; later runs see what became of the scope, and never what became of the struct.
-/

namespace Tabula

/-- The node that runs an action for each element of a struct. -/
def Node.looping (sequence body : Node) : Node :=
  .expression (.operator Operator.each.symbol) sequence body

namespace Rule

/-- What the run for an element starts with, given what the action captured. -/
def runTable (closure : Table Value) (element : Value) (position : Nat) : Table Value :=
  (closure.insert Reserved.element element).insert Reserved.position
    (.number (Float.ofNat position))

/-- A run begins in a new cell, whose table is the captured one except for the element and the
position. -/
structure BeginsRun (state entered : State) (closure : Table Value) (element : Value)
    (position : Nat) : Prop where
  element : entered.heap.get? state.heap.size Reserved.element = some element
  position : entered.heap.get? state.heap.size Reserved.position =
    some (.number (Float.ofNat position))
  names : ∀ key, key ≠ Reserved.element → key ≠ Reserved.position →
    entered.heap.get? state.heap.size key = closure.get? key
  keys : (entered.heap.read state.heap.size).keys =
    closure.keys ++ [Reserved.element, Reserved.position].filter fun key => key ∉ closure.keys
  others : ∀ cell < state.heap.size, entered.heap.read cell = state.heap.read cell

/-- The run for the element at a position ends: its statements are run in a new cell. -/
def RunEnds (eval : Evaluator) (action : Action) (element : Value) (position : Nat)
    (before : State) (outcome : Except Error Unit) (after : State) : Prop :=
  (statements eval before.heap.size action.body).from?
      (before.entering (runTable (before.heap.captured action) element position)) =
    some (outcome, after)

/-- The runs for so many elements, from the first one on, have succeeded one after another, each
from the state that the one before it left. -/
inductive Iterated (eval : Evaluator) (action : Action) (elements : List Value) (start : State) :
    Nat → State → Prop
  | none : Iterated eval action elements start 0 start
  | next {count : Nat} {element : Value} {between after : State} :
      Iterated eval action elements start count between →
      elements[count]? = some element →
      RunEnds eval action element count between (.ok ()) after →
      Iterated eval action elements start (count + 1) after

/-! ## The table that a run starts with -/

theorem beginsRun_entering (state : State) (closure : Table Value) (element : Value)
    (position : Nat) :
    BeginsRun state (state.entering (runTable closure element position)) closure element
      position := by
  have apart : Reserved.position ≠ Reserved.element := by decide
  have here : (state.entering (runTable closure element position)).heap.read state.heap.size =
      (closure.insert Reserved.element element).insert Reserved.position
        (.number (Float.ofNat position)) := state.heap.read_alloc_self _
  constructor
  case element =>
    rw [Heap.get?, here, Table.get?_insert, if_neg apart, Table.get?_insert, if_pos rfl]
  case position =>
    rw [Heap.get?, here, Table.get?_insert, if_pos rfl]
  case names =>
    intro key notElement notPosition
    rw [Heap.get?, here, Table.get?_insert, if_neg (Ne.symm notPosition), Table.get?_insert,
      if_neg (Ne.symm notElement)]
  case keys =>
    rw [here, Table.keys_insert, Table.keys_insert]
    -- a reserved name that was captured keeps its place; otherwise it is put last
    by_cases element : Reserved.element ∈ closure.keys <;>
      by_cases position : Reserved.position ∈ closure.keys <;>
        simp [element, position, apart]
  case others =>
    intro cell old
    exact state.heap.read_alloc_of_ne _ (Nat.ne_of_lt old)

/-! ## Runs one after another -/

section Runs

variable {eval : Evaluator} {action : Action} {elements : List Value}

theorem from?_loopFrom_cons (element : Value) (rest : List Value) (position : Nat)
    (state : State) :
    (loopFrom eval action position (element :: rest)).from? state =
      (statements eval state.heap.size action.body >>= fun _ =>
        loopFrom eval action (position + 1) rest).from?
          (state.entering (runTable (state.heap.captured action) element position)) := by
  have unfolded : loopFrom eval action position (element :: rest) =
      captured action >>= fun closure =>
        block eval action.body (runTable closure element position) >>= fun _ =>
          loopFrom eval action (position + 1) rest := rfl
  rw [unfolded, Run.from?_bind_ok (from?_captured action state), from?_block_bind]

theorem loopFrom_singleton_iff {element : Value} {position : Nat} {state after : State}
    {outcome : Except Error Unit} :
    (loopFrom eval action position [element]).from? state = some (outcome, after) ↔
      RunEnds eval action element position state outcome after := by
  rw [from?_loopFrom_cons, loopFrom, RunEnds, bind_pure_unit]

theorem loopFrom_failed {later : List Value} {position : Nat} {state after : State}
    {error : Error}
    (failed : (loopFrom eval action position later).from? state = some (.error error, after)) :
    ∃ earlier element rest between, later = earlier ++ element :: rest ∧
      (loopFrom eval action position earlier).from? state = some (.ok (), between) ∧
      RunEnds eval action element (position + earlier.length) between (.error error) after := by
  -- the loop splits behind its first element: that run fails, or the rest of the loop does
  induction later generalizing position state with
  | nil => exact nomatch failed
  | cons element rest inductionHypothesis =>
      rw [← List.singleton_append, loopFrom_append] at failed
      rcases Run.bind_ended failed with ⟨error', failed, same⟩ | ⟨_, between, ran, others⟩
      · cases same
        exact ⟨[], element, rest, state, rfl, rfl, loopFrom_singleton_iff.mp failed⟩
      · obtain ⟨earlier, failing, last, middle, split, ranEarlier, failed⟩ :=
          inductionHypothesis others
        refine ⟨element :: earlier, failing, last, middle, ?_, ?_, ?_⟩
        · rw [split, List.cons_append]
        · rw [← List.singleton_append, loopFrom_append, Run.from?_bind_ok ran, ranEarlier]
        · rw [List.length_cons, Nat.add_comm earlier.length 1, ← Nat.add_assoc]
          exact failed

variable {start after : State} {count : Nat}

theorem Iterated.count_le (iterated : Iterated eval action elements start count after) :
    count ≤ elements.length := by
  cases iterated with
  | none => exact Nat.zero_le _
  | next _ isElement _ => exact (List.getElem?_eq_some_iff.mp isElement).1

/-- The runs for the first elements have succeeded if and only if the loop over these elements
does. -/
theorem iterated_iff : Iterated eval action elements start count after ↔
    count ≤ elements.length ∧
      (loopFrom eval action 0 (elements.take count)).from? start = some (.ok (), after) := by
  constructor
  · intro iterated
    refine ⟨iterated.count_le, ?_⟩
    induction iterated with
    | none => rfl
    | @next count element between after earlier isElement ran inductionHypothesis =>
        have length : (elements.take count).length = count :=
          List.length_take_of_le earlier.count_le
        rw [List.take_add_one, isElement, Option.toList_some, loopFrom_append,
          Run.from?_bind_ok inductionHypothesis, length, Nat.zero_add]
        exact loopFrom_singleton_iff.mpr ran
  · rintro ⟨within, looped⟩
    induction count generalizing after with
    | zero =>
        cases looped
        exact .none
    | succ count inductionHypothesis =>
        have isElement : elements[count]? = some elements[count] := List.getElem?_eq_getElem within
        have length : (elements.take count).length = count :=
          List.length_take_of_le (Nat.le_of_succ_le within)
        rw [List.take_add_one, isElement, Option.toList_some, loopFrom_append, length,
          Nat.zero_add] at looped
        rcases Run.bind_ended looped with ⟨error, _, impossible⟩ | ⟨_, between, ran, last⟩
        · exact nomatch impossible
        · exact .next (inductionHypothesis (Nat.le_of_succ_le within) ran) isElement
            (loopFrom_singleton_iff.mp last)

/-- A loop succeeds after one run for each element, and fails where one of the runs fails. -/
theorem loopFrom_ended_iff {outcome : Except Error Unit} :
    (loopFrom eval action 0 elements).from? start = some (outcome, after) ↔
      (outcome = .ok () ∧ Iterated eval action elements start elements.length after) ∨
        ∃ error count element between, outcome = .error error ∧
          Iterated eval action elements start count between ∧
          elements[count]? = some element ∧
          RunEnds eval action element count between (.error error) after := by
  constructor
  · intro ended
    cases outcome with
    | ok _ =>
        refine Or.inl ⟨rfl, iterated_iff.mpr ⟨Nat.le_refl _, ?_⟩⟩
        rw [List.take_length]
        exact ended
    | error error =>
        obtain ⟨earlier, element, rest, between, rfl, ran, failed⟩ := loopFrom_failed ended
        rw [Nat.zero_add] at failed
        refine Or.inr ⟨error, earlier.length, element, between, rfl, iterated_iff.mpr ⟨?_, ?_⟩, ?_,
          failed⟩
        · rw [List.length_append]
          exact Nat.le_add_right _ _
        · rw [List.take_left]
          exact ran
        · simp
  · rintro (⟨rfl, iterated⟩ | ⟨error, count, element, between, rfl, iterated, isElement, failed⟩)
    · have looped := (iterated_iff.mp iterated).2
      rwa [List.take_length] at looped
    · -- the loop gets to the failing run, and nothing after it is run
      have split : elements = elements.take count ++ element :: elements.drop (count + 1) := by
        obtain ⟨within, same⟩ := List.getElem?_eq_some_iff.mp isElement
        rw [← same, List.getElem_cons_drop, List.take_append_drop]
      have length : (elements.take count).length = count :=
        List.length_take_of_le iterated.count_le
      have failedHere : (loopFrom eval action count [element]).from? between =
          some (.error error, after) := loopFrom_singleton_iff.mpr failed
      rw [split, loopFrom_append, Run.from?_bind_ok (iterated_iff.mp iterated).2, length,
        Nat.zero_add, ← List.singleton_append, loopFrom_append, Run.from?_bind, failedHere]

end Runs

theorem from?_each {eval : Evaluator} {scope : Cell} {left right : Node} {sequence : Value}
    {action : Action} {elements : List Value} {before middle start : State}
    (leftRan : (eval scope left).from? before = some (.ok sequence, middle))
    (rightRan : (eval scope right).from? middle = some (.ok (.action action), start))
    (snapshot : start.heap.elements? sequence = some elements) :
    (each eval scope left right).from? before =
      (loopFrom eval action 0 elements >>= fun _ => pure .void).from? start := by
  have isAction : (wantAction .each (.action action)).from? start = some (.ok action, start) := rfl
  rw [each, Run.from?_bind_ok (from?_both_of_ok leftRan rightRan), Run.from?_bind_ok isAction,
    Run.from?_bind_ok (Run.from?_heap start), snapshot]

end Rule

/-- A loop over a struct takes the elements that the struct has before the first run. The runs for
them follow one another, each in a new cell whose table is the captured one as it stands when the
run begins, with the element and its position on top. The loop succeeds with void after exactly one
run for each element; it fails with the error of the first run that fails, in the state that this
run left. It ends in no other way. -/
theorem loop_runs_over_snapshot (interpreter : Interpreter) {depth : Nat} {scope : Cell}
    {left right : Node} {sequence : Value} {action : Action} {elements : List Value}
    {before middle start : State}
    (leftRan : (interpreter.evaluate depth scope left).from? before =
      some (.ok sequence, middle))
    (rightRan : (interpreter.evaluate depth scope right).from? middle =
      some (.ok (.action action), start))
    (snapshot : start.heap.elements? sequence = some elements) :
    (∀ outcome after,
      (interpreter.evaluate (depth + 1) scope (Node.looping left right)).from? before =
          some (outcome, after) ↔
        (outcome = .ok .void ∧
          Rule.Iterated (interpreter.evaluate depth) action elements start elements.length
            after) ∨
        ∃ error count element between, outcome = .error (error.tag .each) ∧
          Rule.Iterated (interpreter.evaluate depth) action elements start count between ∧
          elements[count]? = some element ∧
          Rule.RunEnds (interpreter.evaluate depth) action element count between (.error error)
            after) ∧
      (∀ count after,
        Rule.Iterated (interpreter.evaluate depth) action elements start count after →
          count ≤ elements.length) ∧
      ∀ (state : State) (element : Value) (position : Nat),
        Rule.BeginsRun state
          (state.entering (Rule.runTable (state.heap.captured action) element position))
          (state.heap.captured action) element position := by
  refine ⟨fun outcome after => ?_, fun _ _ iterated => iterated.count_le,
    fun state element position => Rule.beginsRun_entering state _ element position⟩
  rw [Node.looping, interpreter.evaluate_operator, Run.from?_tagged, Option.map_eq_some_iff]
  simp only [Interpreter.apply]
  rw [Rule.from?_each leftRan rightRan snapshot]
  constructor
  · rintro ⟨⟨ended, reached⟩, ran, same⟩
    cases same
    rcases Run.bind_ended ran with ⟨error, failed, rfl⟩ | ⟨_, between, looped, rest⟩
    · rcases Rule.loopFrom_ended_iff.mp failed with
        ⟨impossible, _⟩ | ⟨error', count, element, between, same, failing⟩
      · exact nomatch impossible
      · cases same
        exact Or.inr ⟨error, count, element, between, rfl, failing⟩
    · cases rest
      rcases Rule.loopFrom_ended_iff.mp looped with
        ⟨_, iterated⟩ | ⟨error, _, _, _, impossible, _⟩
      · exact Or.inl ⟨rfl, iterated⟩
      · exact nomatch impossible
  · rintro (⟨rfl, iterated⟩ | ⟨error, count, element, between, rfl, failing⟩)
    · have looped := Rule.loopFrom_ended_iff.mpr (Or.inl ⟨rfl, iterated⟩)
      exact ⟨(.ok .void, after), Run.from?_bind_ok looped, rfl⟩
    · have failed := Rule.loopFrom_ended_iff.mpr
        (Or.inr ⟨error, count, element, between, rfl, failing⟩)
      refine ⟨(.error error, after), ?_, rfl⟩
      rw [Run.from?_bind, failed]

/-- Appends the element to the struct that is looped over, and its position to the captured scope.
-/
private def growsBoth : List Node :=
  [.expression (.operator Operator.append.symbol) (.atom "s") (.atom Reserved.element),
    .expression (.operator Operator.append.symbol) (.atom "here") (.atom Reserved.position)]

/-- A scope with a struct of two elements, the scope itself, and an action that captured it. -/
private def growing : State :=
  { heap := ⟨#[
      [("s", .struct 1), ("here", .struct 0), ("f", .action ⟨⟨0, []⟩, growsBoth, some 0⟩)],
      [("0", .bool true), ("1", .bool false)]]⟩ }

theorem growing_struct_is_looped_over_twice :
    ∃ after,
      (({} : Interpreter).evaluate 4 0 (Node.looping (.atom "s") (.atom "f"))).from? growing =
        some (.ok .void, after) ∧
      Rule.Iterated (({} : Interpreter).evaluate 3) ⟨⟨0, []⟩, growsBoth, some 0⟩
        [.bool true, .bool false] growing 2 after ∧
      (after.heap.read 1).values = [.bool true, .bool false, .bool true, .bool false] ∧
      (after.heap.read 2).keys = ["s", "here", "f", Reserved.element, Reserved.position] ∧
      (after.heap.read 3).keys = ["s", "here", "f", "3", Reserved.element, Reserved.position] := by
  have leftRan : (({} : Interpreter).evaluate 3 0 (.atom "s")).from? growing =
      some (.ok (.struct 1), growing) := rfl
  have rightRan : (({} : Interpreter).evaluate 3 0 (.atom "f")).from? growing =
      some (.ok (.action ⟨⟨0, []⟩, growsBoth, some 0⟩), growing) := rfl
  have snapshot : growing.heap.elements? (.struct 1) = some [.bool true, .bool false] := rfl
  obtain ⟨ends, _⟩ := loop_runs_over_snapshot {} leftRan rightRan snapshot
  rcases (ends (.ok .void) _).mp rfl with ⟨_, iterated⟩ | ⟨_, _, _, _, impossible, _⟩
  · exact ⟨_, rfl, iterated, rfl, rfl, rfl⟩
  · exact nomatch impossible

end Tabula
