import Mathlib.Data.List.Forall2
import Tabula.Proofs.Depth
import Tabula.Proofs.Invocation

/-!
# Which targets an assignment accepts

The target of an assignment is a chain of fields. Its levels are counted from the outermost field,
which names the deepest key, and below the innermost one stands the root. A level is sound if it is
an atom, or an accessor whose value spells a key; the root has to be an atom, with at least one
level above it.

The value on the right is evaluated first. Then the levels are gone through from the outermost one
on, and the first unsound one decides how the assignment fails. Nothing is written before the whole
target is known, so an assignment that fails leaves what the right operand left.
-/

namespace Tabula

/-- The chain of fields over a root, whose right operands are the levels, the outermost first. -/
def Node.under (root : Node) : List Node → Node
  | [] => root
  | level :: inner =>
      .expression (.operator Operator.field.symbol) (root.under inner) level

/-- Strings, numbers and booleans spell keys. -/
def Value.SpellsKey (value : Value) : Prop :=
  value.tag = .string ∨ value.tag = .number ∨ value.tag = .bool

namespace Heap

/-- What a name stands for in a scope: its value, or itself if it is not bound. -/
def meaning (heap : Heap) (scope : Cell) (name : String) : Value :=
  (heap.get? scope name).getD (.string name)

/-- The keys of sound levels. -/
inductive LevelKey (heap : Heap) (scope : Cell) : Node → String → Prop
  | atom (name : String) : LevelKey heap scope (.atom name) name
  | accessor {name key : String} :
      (heap.meaning scope name).SpellsKey →
      (heap.meaning scope name).key? = some key →
      LevelKey heap scope (.accessor name) key

/-- Why a level is unsound. -/
inductive LevelFault (heap : Heap) (scope : Cell) : Node → Reason → Prop
  | noField {level : Node} :
      level.kind ≠ .atom →
      level.kind ≠ .accessor →
      LevelFault heap scope level (.structural (.expectedField level.kind))
  | noKey {name : String} :
      ¬ (heap.meaning scope name).SpellsKey →
      LevelFault heap scope (.accessor name) (.typeMismatch (.key (heap.meaning scope name).tag))

/-- The node is a chain of at least one sound level over an atom; the keys are those of the levels,
the deepest first. -/
def IsTarget (heap : Heap) (scope : Cell) (node : Node) (target : Target) : Prop :=
  ∃ levels, levels ≠ [] ∧ node = (Node.atom target.root).under levels ∧
    List.Forall₂ (heap.LevelKey scope) levels target.keys

/-- The first unsound level of the node, counted from the outermost one, or the end of the chain if
all levels are sound. -/
def FirstFault (heap : Heap) (scope : Cell) (node : Node) (reason : Reason) : Prop :=
  ∃ (root : Node) (levels : List Node),
    node = root.under levels ∧ root.applies Operator.field.symbol = false ∧
      ((∃ outer level inner keys, levels = outer ++ level :: inner ∧
          List.Forall₂ (heap.LevelKey scope) outer keys ∧ heap.LevelFault scope level reason) ∨
        ∃ keys, List.Forall₂ (heap.LevelKey scope) levels keys ∧
          (levels = [] ∨ root.kind ≠ .atom) ∧ reason = .structural .malformedPath)

end Heap

/-! ## Chains of fields -/

namespace Node

theorem under_append (root : Node) (outer inner : List Node) :
    root.under (outer ++ inner) = (root.under inner).under outer := by
  induction outer with
  | nil => rfl
  | cons level rest inductionHypothesis =>
      rw [List.cons_append, under, under, inductionHypothesis]

/-- Every node is a chain of fields over a root that is no field itself. -/
theorem exists_eq_under (node : Node) :
    ∃ (root : Node) (levels : List Node),
    node = root.under levels ∧ root.applies Operator.field.symbol = false := by
  cases isField : node.applies Operator.field.symbol with
  | false => exact ⟨node, [], rfl, isField⟩
  | true =>
      cases node with
      | expression applied left right =>
          cases applied with
          | operator symbol =>
              rw [applies, beq_iff_eq] at isField
              obtain ⟨root, levels, rfl, ends⟩ := exists_eq_under left
              exact ⟨root, right :: levels, by rw [isField, under], ends⟩
          | _ => exact nomatch isField
      | _ => exact nomatch isField

end Node

/-! ## Levels -/

theorem Value.spellsKey_iff {value : Value} :
    value.SpellsKey ↔ ∃ key, value.key? = some key := by
  cases value <;> simp [SpellsKey, tag, key?]

namespace Heap

variable {heap : Heap} {scope : Cell}

theorem levelKey_or_levelFault (heap : Heap) (scope : Cell) (level : Node) :
    (∃ key, heap.LevelKey scope level key) ∨ ∃ reason, heap.LevelFault scope level reason := by
  cases level with
  | atom name => exact Or.inl ⟨name, .atom name⟩
  | accessor name =>
      by_cases spells : (heap.meaning scope name).SpellsKey
      · obtain ⟨key, isKey⟩ := Value.spellsKey_iff.mp spells
        exact Or.inl ⟨key, .accessor spells isKey⟩
      · exact Or.inr ⟨_, .noKey spells⟩
  | _ => exact Or.inr ⟨_, .noField nofun nofun⟩

/-- Either all levels are sound, or there is a first one that is not. -/
theorem levels_sound_or_fault (heap : Heap) (scope : Cell) (levels : List Node) :
    (∃ keys, List.Forall₂ (heap.LevelKey scope) levels keys) ∨
      ∃ outer level inner keys reason, levels = outer ++ level :: inner ∧
        List.Forall₂ (heap.LevelKey scope) outer keys ∧ heap.LevelFault scope level reason := by
  induction levels with
  | nil => exact Or.inl ⟨[], .nil⟩
  | cons level rest inductionHypothesis =>
      rcases heap.levelKey_or_levelFault scope level with ⟨key, isKey⟩ | ⟨reason, fault⟩
      · rcases inductionHypothesis with
          ⟨keys, sound⟩ | ⟨outer, failing, inner, keys, reason, rfl, sound, fault⟩
        · exact Or.inl ⟨key :: keys, .cons isKey sound⟩
        · exact Or.inr ⟨level :: outer, failing, inner, key :: keys, reason, rfl,
            .cons isKey sound, fault⟩
      · exact Or.inr ⟨[], level, rest, [], reason, rfl, .nil, fault⟩

theorem isTarget_or_firstFault (heap : Heap) (scope : Cell) (node : Node) :
    (∃ target, heap.IsTarget scope node target) ∨ ∃ reason, heap.FirstFault scope node reason := by
  obtain ⟨root, levels, rfl, ends⟩ := node.exists_eq_under
  rcases heap.levels_sound_or_fault scope levels with
    ⟨keys, sound⟩ | ⟨outer, level, inner, keys, reason, split, sound, fault⟩
  · by_cases malformed : levels = [] ∨ root.kind ≠ .atom
    · exact Or.inr ⟨_, root, levels, rfl, ends, Or.inr ⟨keys, sound, malformed, rfl⟩⟩
    · rw [not_or, not_not] at malformed
      cases root with
      | atom name => exact Or.inl ⟨⟨name, keys⟩, levels, malformed.1, rfl, sound⟩
      | _ => exact nomatch malformed.2
  · exact Or.inr ⟨reason, root, levels, rfl, ends,
      Or.inl ⟨outer, level, inner, keys, split, sound, fault⟩⟩

end Heap

namespace Rule

open Heap

variable (interpreter : Interpreter) (depth : Nat) {scope : Cell} {state : State}

theorem from?_stepKey_of_levelKey {level : Node} {key : String}
    (isKey : state.heap.LevelKey scope level key) :
    (stepKey (interpreter.evaluate (depth + 1)) scope level).from? state =
      some (.ok key, state) := by
  cases isKey with
  | atom name => rfl
  | @accessor name key spells isKey =>
      have ran : (interpreter.evaluate (depth + 1) scope (.accessor name)).from? state =
          some (.ok (state.heap.meaning scope name), state) := rfl
      rw [stepKey, Run.from?_bind_ok ran, isKey]
      rfl

theorem from?_stepKey_of_levelFault {level : Node} {reason : Reason}
    (fault : state.heap.LevelFault scope level reason) :
    (stepKey (interpreter.evaluate (depth + 1)) scope level).from? state =
      some (.error (Error.ofReason reason), state) := by
  cases fault with
  | noField noAtom noAccessor =>
      cases level with
      | atom name => exact absurd rfl noAtom
      | accessor name => exact absurd rfl noAccessor
      | _ => rfl
  | @noKey name unspelt =>
      have ran : (interpreter.evaluate (depth + 1) scope (.accessor name)).from? state =
          some (.ok (state.heap.meaning scope name), state) := rfl
      have noKey : (state.heap.meaning scope name).key? = none := by
        rw [Value.spellsKey_iff, not_exists] at unspelt
        exact Option.eq_none_iff_forall_ne_some.mpr unspelt
      rw [stepKey, Run.from?_bind_ok ran, noKey]
      rfl

/-- Sound levels are walked through one by one, and their keys pile up. -/
theorem from?_targetFrom_under {outer : List Node} {spelled : List String}
    (sound : List.Forall₂ (state.heap.LevelKey scope) outer spelled) (node : Node)
    (keys : List String) :
    (targetFrom (interpreter.evaluate (depth + 1)) scope keys (node.under outer)).from? state =
      (targetFrom (interpreter.evaluate (depth + 1)) scope (spelled.reverse ++ keys) node).from?
        state := by
  induction sound generalizing keys with
  | nil => rfl
  | @cons level key outer spelled isKey _ inductionHypothesis =>
      have stepped := from?_stepKey_of_levelKey interpreter depth isKey
      rw [Node.under, targetFrom, if_pos rfl, Run.from?_bind_ok stepped, inductionHypothesis,
        List.reverse_cons, List.append_assoc, List.singleton_append]

theorem from?_targetFrom_of_isTarget {node : Node} {target : Target}
    (isTarget : state.heap.IsTarget scope node target) :
    (targetFrom (interpreter.evaluate (depth + 1)) scope [] node).from? state =
      some (.ok target, state) := by
  obtain ⟨levels, below, rfl, sound⟩ := isTarget
  have keysBelow : target.keys.reverse ++ [] ≠ [] := by
    rw [List.append_nil, ← List.length_pos_iff, List.length_reverse, ← sound.length_eq]
    exact List.length_pos_iff.mpr below
  rw [from?_targetFrom_under interpreter depth sound, targetFrom,
    List.isEmpty_eq_false_iff.mpr keysBelow, List.append_nil, List.reverse_reverse]
  rfl

theorem from?_targetFrom_of_root {root : Node} (ends : root.applies Operator.field.symbol = false)
    {keys : List String} (malformed : keys = [] ∨ root.kind ≠ .atom) :
    (targetFrom (interpreter.evaluate (depth + 1)) scope keys root).from? state =
      some (.error (Error.ofReason (.structural .malformedPath)), state) := by
  cases root with
  | atom name =>
      rcases malformed with rfl | noAtom
      · rfl
      · exact absurd rfl noAtom
  | expression applied left right =>
      cases applied with
      | operator symbol =>
          have noField : symbol ≠ Operator.field.symbol := by
            rw [Node.applies, beq_eq_false_iff_ne] at ends
            exact ends
          rw [targetFrom, if_neg noField]
          rfl
      | _ => rfl
  | _ => rfl

theorem from?_targetFrom_of_firstFault {node : Node} {reason : Reason}
    (fault : state.heap.FirstFault scope node reason) :
    (targetFrom (interpreter.evaluate (depth + 1)) scope [] node).from? state =
      some (.error (Error.ofReason reason), state) := by
  obtain ⟨root, levels, rfl, ends, cause⟩ := fault
  rcases cause with ⟨outer, level, inner, keys, rfl, sound, fault⟩ | ⟨keys, sound, malformed, rfl⟩
  · have stepped := from?_stepKey_of_levelFault interpreter depth fault
    rw [root.under_append, from?_targetFrom_under interpreter depth sound, Node.under, targetFrom,
      if_pos rfl, Run.from?_bind, stepped]
  · have stillMalformed : keys.reverse ++ [] = [] ∨ root.kind ≠ .atom := by
      refine malformed.imp_left fun empty => ?_
      subst empty
      rw [List.forall₂_nil_left_iff.mp sound]
      rfl
    rw [from?_targetFrom_under interpreter depth sound,
      from?_targetFrom_of_root interpreter depth ends stillMalformed]

end Rule

/-! ## Assignments -/

/-- Assigns the value of the right node to what the left one leads to. -/
def Node.assignment (left right : Node) : Node :=
  .expression (.operator Operator.assign.symbol) left right

namespace Interpreter

variable (interpreter : Interpreter) {scope : Cell} {left right : Node} {before after final : State}

/-- The ways in which an assignment ends: the right operand fails, or the target is accepted and
written to, or it is rejected and nothing is written. -/
inductive AssignmentEnds (scope : Cell) (left right : Node) (before : State) :
    Except Error Value → State → Prop
  | failed {error : Error} {after : State} :
      interpreter.Ends scope right before (.error error) after →
      AssignmentEnds scope left right before (.error (error.tag .assign)) after
  | written {value : Value} {after : State} {target : Target} :
      interpreter.Ends scope right before (.ok value) after →
      after.heap.IsTarget scope left target →
      AssignmentEnds scope left right before (.ok .void)
        { after with heap := after.heap.assign scope target value }
  | rejected {value : Value} {after : State} {reason : Reason} :
      interpreter.Ends scope right before (.ok value) after →
      after.heap.FirstFault scope left reason →
      AssignmentEnds scope left right before (.error ((Error.ofReason reason).tag .assign)) after

theorem from?_assignment {depth : Nat} {value : Value}
    (ran : (interpreter.evaluate (depth + 1) scope right).from? before = some (.ok value, after)) :
    (interpreter.evaluate (depth + 2) scope (left.assignment right)).from? before =
      ((Rule.targetFrom (interpreter.evaluate (depth + 1)) scope [] left >>= fun target => do
        Run.modifyHeap (·.assign scope target value)
        return .void).from? after).map
          fun (outcome, final) => (outcome.mapError (·.tag .assign), final) := by
  rw [Node.assignment, interpreter.evaluate_operator, Run.from?_tagged]
  simp only [apply, Rule.assign]
  rw [Run.from?_bind_ok ran]

theorem ends_of_assignmentEnds {outcome : Except Error Value}
    (ends : interpreter.AssignmentEnds scope left right before outcome final) :
    interpreter.Ends scope (left.assignment right) before outcome final := by
  cases ends with
  | @failed error final ended =>
      obtain ⟨depth, ran⟩ := ended
      refine ⟨depth + 1, ?_⟩
      rw [Node.assignment, interpreter.evaluate_operator, Run.from?_tagged]
      simp only [apply, Rule.assign]
      rw [Run.from?_bind, ran]
      rfl
  | @written value after target ended isTarget =>
      obtain ⟨depth, ran⟩ := ended.exists_succ
      refine ⟨depth + 2, ?_⟩
      rw [interpreter.from?_assignment ran,
        Run.from?_bind_ok (Rule.from?_targetFrom_of_isTarget interpreter depth isTarget)]
      rfl
  | @rejected value final reason ended fault =>
      obtain ⟨depth, ran⟩ := ended.exists_succ
      refine ⟨depth + 2, ?_⟩
      rw [interpreter.from?_assignment ran, Run.from?_bind,
        Rule.from?_targetFrom_of_firstFault interpreter depth fault]
      rfl

/-- Once the right operand has a value, the target decides how the assignment ends. -/
theorem assignmentEnds_of_right {value : Value}
    (ended : interpreter.Ends scope right before (.ok value) after) :
    ∃ outcome final, interpreter.AssignmentEnds scope left right before outcome final := by
  rcases after.heap.isTarget_or_firstFault scope left with ⟨target, isTarget⟩ | ⟨reason, fault⟩
  · exact ⟨_, _, .written ended isTarget⟩
  · exact ⟨_, _, .rejected ended fault⟩

theorem assignmentEnds_of_ends {outcome : Except Error Value}
    (ends : interpreter.Ends scope (left.assignment right) before outcome final) :
    interpreter.AssignmentEnds scope left right before outcome final := by
  have rightEnds : ∃ outcome after, interpreter.Ends scope right before outcome after := by
    obtain ⟨depth, ran⟩ := ends.exists_succ
    rw [Node.assignment, interpreter.evaluate_operator, Run.from?_tagged,
      Option.map_eq_some_iff] at ran
    obtain ⟨ended, ran, _⟩ := ran
    rcases Run.bind_ended ran with ⟨error, failed, _⟩ | ⟨value, after, succeeded, _⟩
    · exact ⟨_, _, depth, failed⟩
    · exact ⟨_, _, depth, succeeded⟩
  obtain ⟨outcomeRight, after, ended⟩ := rightEnds
  have found : ∃ outcome final,
      interpreter.AssignmentEnds scope left right before outcome final := by
    cases outcomeRight with
    | error error => exact ⟨_, _, .failed ended⟩
    | ok value => exact interpreter.assignmentEnds_of_right ended
  obtain ⟨outcome', final', assigned⟩ := found
  obtain ⟨rfl, rfl⟩ := ends.unique interpreter (interpreter.ends_of_assignmentEnds assigned)
  exact assigned

end Interpreter

/-! ## Main result -/

/-- An assignment evaluates its right operand and fails with it. After that it succeeds if and only
if the left node is a target in the state that the right operand left, and is written there; if not,
it fails with the first fault of the left node, and nothing is written. -/
theorem assignment_accepts_exactly_targets (interpreter : Interpreter) (scope : Cell)
    (left right : Node) (before : State) :
    (∀ outcome final, interpreter.Ends scope (left.assignment right) before outcome final ↔
        interpreter.AssignmentEnds scope left right before outcome final) ∧
      ∀ value after, interpreter.Ends scope right before (.ok value) after →
        (∃ outcome final,
            interpreter.Ends scope (left.assignment right) before outcome final) ∧
          ((∃ result final,
              interpreter.Ends scope (left.assignment right) before (.ok result) final) ↔
            ∃ target, after.heap.IsTarget scope left target) := by
  refine ⟨fun outcome final => ⟨interpreter.assignmentEnds_of_ends,
    interpreter.ends_of_assignmentEnds⟩, fun value after ended => ⟨?_, ?_, ?_⟩⟩
  · obtain ⟨outcome, final, assigned⟩ := interpreter.assignmentEnds_of_right ended
    exact ⟨outcome, final, interpreter.ends_of_assignmentEnds assigned⟩
  · rintro ⟨result, final, succeeded⟩
    cases interpreter.assignmentEnds_of_ends succeeded with
    | @written value' after' target ended' isTarget =>
        obtain ⟨-, rfl⟩ := ended.unique interpreter ended'
        exact ⟨target, isTarget⟩
  · rintro ⟨target, isTarget⟩
    exact ⟨.void, _, interpreter.ends_of_assignmentEnds (.written ended isTarget)⟩

/-- The right operand binds a name, which spells a key until then, to void. The root is no atom
either, but it stands further in. -/
theorem outermost_fault_after_right_operand :
    let before : State := { heap := ⟨#[[]]⟩ }
    let after : State := { heap := ⟨#[[("k", .void)]]⟩ }
    before.heap.LevelKey 0 (.accessor "k") "k" ∧
      ({} : Interpreter).Ends 0 (Node.binding "k" .void) before (.ok .void) after ∧
      ({} : Interpreter).Ends 0
        (((Node.constant (.bool true)).under [.atom "a", .accessor "k", .void]).assignment
          (Node.binding "k" .void)) before
        (.error ((Error.ofReason (.typeMismatch (.key .void))).tag .assign)) after := by
  intro before after
  have ended : ({} : Interpreter).Ends 0 (Node.binding "k" .void) before (.ok .void) after :=
    ⟨2, rfl⟩
  have isKey : after.heap.LevelKey 0 (.atom "a") "a" := .atom "a"
  have fault : after.heap.LevelFault 0 (.accessor "k") (.typeMismatch (.key .void)) :=
    .noKey (by simp [Value.SpellsKey, Heap.meaning, Heap.get?, Heap.read, after, Table.get?,
      Value.tag])
  have firstFault : after.heap.FirstFault 0
      ((Node.constant (.bool true)).under [.atom "a", .accessor "k", .void])
      (.typeMismatch (.key .void)) :=
    ⟨_, _, rfl, rfl, Or.inl ⟨[.atom "a"], .accessor "k", [.void], ["a"], rfl,
      .cons isKey .nil, fault⟩⟩
  obtain ⟨endsIff, _⟩ := assignment_accepts_exactly_targets {} 0
    ((Node.constant (.bool true)).under [.atom "a", .accessor "k", .void])
    (Node.binding "k" .void) before
  exact ⟨.accessor (Or.inl rfl) rfl, ended, (endsIff _ _).mpr (.rejected ended firstFault)⟩

end Tabula
