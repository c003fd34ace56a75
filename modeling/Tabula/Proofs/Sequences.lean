import Mathlib.Data.List.Nodup
import Mathlib.Order.Bounds.Defs
import Tabula.Proofs.Materialization
import Tabula.Proofs.WholeNumbers

/-!
# Sequences

A value is appended under the first number, from the size of the table up, that is no key yet. There
are more candidates than keys, so one of them is free. In a table that holds values under their
positions it is the next position, so such a table grows into another one of its kind.

Appending, list templates and the reading of a key by number all spell positions in decimal, and so
they agree on which element stands where.
-/

namespace Tabula

namespace Table

variable {α : Type} {table : Table α}

/-! ## Probing for a free number -/

/-- Numbers are tried one after another, from a first one on, until one is no key. -/
inductive Probes (table : Table α) : Nat → Nat → Nat → Prop
  | free {index : Nat} : Nat.repr index ∉ table.keys → Probes table index 1 index
  | taken {index probes found : Nat} :
      Nat.repr index ∈ table.keys →
      Probes table (index + 1) probes found →
      Probes table index (probes + 1) found

theorem contains_iff {key : String} : table.contains key = true ↔ key ∈ table.keys := by
  rw [contains, ← not_iff_not, ← get?_eq_none_iff, Bool.not_eq_true, Option.isSome_eq_false_iff,
    Option.isNone_iff_eq_none]

theorem Probes.isLeast {start probes found : Nat} (probed : table.Probes start probes found) :
    IsLeast {index | start ≤ index ∧ Nat.repr index ∉ table.keys} found := by
  induction probed with
  | free isFree => exact ⟨⟨Nat.le_refl _, isFree⟩, fun other bounds => bounds.1⟩
  | @taken index probes found isTaken _ inductionHypothesis =>
      obtain ⟨⟨later, isFree⟩, least⟩ := inductionHypothesis
      refine ⟨⟨Nat.le_of_succ_le later, isFree⟩, fun other bounds => least ⟨?_, bounds.2⟩⟩
      refine Nat.lt_of_le_of_ne bounds.1 fun same => ?_
      exact bounds.2 (same ▸ isTaken)

/-- Of one number more than there are keys, one is no key. -/
theorem exists_free (table : Table α) (start : Nat) :
    ∃ index, start ≤ index ∧ index ≤ start + table.length ∧ Nat.repr index ∉ table.keys := by
  by_contra! allTaken
  have distinct : ((List.range' start (table.length + 1)).map Nat.repr).Nodup :=
    List.Nodup.map (fun _ _ => eq_of_repr_eq) List.nodup_range'
  have covered : (List.range' start (table.length + 1)).map Nat.repr ⊆ table.keys := by
    intro key member
    obtain ⟨index, inRange, rfl⟩ := List.mem_map.mp member
    rw [List.mem_range'_1] at inRange
    exact allTaken index inRange.1 (by omega)
  have tooMany := (distinct.subperm covered).length_le
  rw [List.length_map, List.length_range', keys, List.length_map] at tooMany
  exact Nat.not_succ_le_self _ tooMany

theorem probes_freeFrom (tries start : Nat)
    (someFree : ∃ index, start ≤ index ∧ index ≤ start + tries ∧
      Nat.repr index ∉ table.keys) :
    ∃ probes ≤ tries + 1, table.Probes start probes (table.freeFrom tries start) := by
  obtain ⟨index, atLeast, atMost, isFree⟩ := someFree
  induction tries generalizing start with
  | zero =>
      have same : start = index := Nat.le_antisymm atLeast atMost
      exact ⟨1, Nat.le_refl 1, .free (same ▸ isFree)⟩
  | succ tries inductionHypothesis =>
      rw [freeFrom]
      by_cases isTaken : Nat.repr start ∈ table.keys
      · have different : start ≠ index := fun same => isFree (same ▸ isTaken)
        obtain ⟨probes, few, probed⟩ := inductionHypothesis (start + 1)
          (Nat.lt_of_le_of_ne atLeast different) (by omega)
        rw [if_pos (contains_iff.mpr isTaken)]
        exact ⟨probes + 1, Nat.succ_le_succ few, .taken isTaken probed⟩
      · rw [if_neg (fun contained => isTaken (contains_iff.mp contained))]
        exact ⟨1, Nat.le_add_left 1 _, .free isTaken⟩

theorem probes_freeIndex (table : Table α) :
    ∃ probes ≤ table.length + 1, table.Probes table.length probes table.freeIndex :=
  probes_freeFrom table.length table.length (table.exists_free table.length)

theorem isLeast_freeIndex (table : Table α) :
    IsLeast {index | table.length ≤ index ∧ Nat.repr index ∉ table.keys} table.freeIndex := by
  obtain ⟨probes, _, probed⟩ := table.probes_freeIndex
  exact probed.isLeast

/-! ## Appending -/

theorem push_eq_append (table : Table α) (value : α) :
    table.push value = table ++ [(Nat.repr table.freeIndex, value)] :=
  insert_of_absent value table.isLeast_freeIndex.1.2

theorem values_push (table : Table α) (value : α) :
    (table.push value).values = table.values ++ [value] := by
  rw [push_eq_append, values, List.map_append]
  rfl

/-! ## Tables of positions -/

theorem length_positioned (position : Nat) (items : List α) :
    (positioned position items).length = items.length := by
  rw [positioned, List.length_map, List.length_zipIdx]

theorem freeIndex_positioned (items : List α) :
    (positioned 0 items).freeIndex = items.length := by
  have isFree : Nat.repr items.length ∉ (positioned 0 items).keys := by
    rw [keys_positioned]
    intro member
    obtain ⟨index, inRange, same⟩ := List.mem_map.mp member
    rw [List.mem_range'_1, eq_of_repr_eq same] at inRange
    omega
  have least := (positioned 0 items).isLeast_freeIndex
  rw [length_positioned] at least
  exact Nat.le_antisymm (least.2 ⟨Nat.le_refl _, isFree⟩) least.1.1

theorem push_positioned (items : List α) (item : α) :
    (positioned 0 items).push item = positioned 0 (items ++ [item]) := by
  rw [push_eq_append, freeIndex_positioned, positioned, positioned, List.zipIdx_append,
    List.map_append, Nat.zero_add]
  rfl

/-- What is built by appending holds its values under their positions. -/
theorem sequence_eq_positioned (items : List α) : sequence items = positioned 0 items := by
  induction items using List.reverseRecOn with
  | nil => rfl
  | append_singleton items item inductionHypothesis =>
      rw [sequence, List.foldl_append, ← sequence, inductionHypothesis]
      exact push_positioned items item

theorem push_sequence (items : List α) (item : α) :
    (sequence items).push item = sequence (items ++ [item]) := by
  rw [sequence_eq_positioned, push_positioned, sequence_eq_positioned]

theorem keys_sequence (items : List α) :
    (sequence items).keys = (List.range items.length).map Nat.repr := by
  rw [sequence_eq_positioned, keys_positioned, List.range_eq_range']

theorem values_sequence (items : List α) : (sequence items).values = items := by
  rw [sequence_eq_positioned, values_positioned]

theorem get?_sequence (items : List α) {index : Nat} (inside : index < items.length) :
    (sequence items).get? (Nat.repr index) = some items[index] := by
  rw [sequence_eq_positioned]
  have atIndex : (items[index], index) ∈ items.zipIdx := by
    rw [List.mk_mem_zipIdx_iff_getElem?]
    exact List.getElem?_eq_getElem inside
  exact get?_of_mem (distinct_positioned 0 items) (List.mem_map.mpr ⟨_, atIndex, rfl⟩)

end Table

/-! ## Lists of literals -/

/-- The value of a literal. -/
def Node.literal? : Node → Option Value
  | .constant value => some value.value
  | .action label body => some (.action { label, body })
  | _ => none

namespace Interpreter

variable (interpreter : Interpreter) {scope : Cell} {depth : Nat}

theorem from?_literal {node : Node} {value : Value} (isLiteral : node.literal? = some value)
    (state : State) :
    (Rule.entry (interpreter.evaluate (depth + 1)) scope node).from? state =
      some (.ok value, state) := by
  cases node with
  | constant constant =>
      cases isLiteral
      rfl
  | action label body =>
      cases isLiteral
      rfl
  | _ => exact nomatch isLiteral

theorem attempts_literals {nodes : List Node} {values : List Value}
    (literals : List.Forall₂ (fun node value => node.literal? = some value) nodes values)
    (position : Nat) (state : State) :
    (Rule.attempts (interpreter.evaluate (depth + 1)) scope
        (Table.positioned position nodes)).from? state =
      some (.ok (values.map .ok), state) := by
  induction literals generalizing position with
  | nil => rfl
  | cons isLiteral _ inductionHypothesis =>
      rw [Table.positioned_cons]
      exact Rule.from?_attempts_cons (interpreter.from?_literal isLiteral state)
        (inductionHypothesis (position + 1))

/-- A list of literals gives a new struct that holds their values as a sequence. -/
theorem ends_list {nodes : List Node} {values : List Value}
    (literals : List.Forall₂ (fun node value => node.literal? = some value) nodes values)
    (scope : Cell) (state : State) :
    interpreter.Ends scope (Node.list nodes) state (.ok (.struct state.heap.size))
      (state.entering (Table.sequence values)) := by
  have sameLength : (values.map Except.ok : List (Except Error Value)).length =
      (Table.positioned 0 nodes).length := by
    rw [List.length_map, Table.length_positioned, literals.length_eq]
  have sameKeys : (Table.positioned 0 values).map Prod.fst =
      Table.keys (Table.positioned 0 nodes) := by
    rw [Table.keys_positioned, literals.length_eq]
    exact Table.keys_positioned 0 values
  have sameTable : (Table.keys (Table.positioned 0 nodes)).zip values = Table.sequence values := by
    rw [Table.sequence_eq_positioned]
    exact (List.zip_of_prod sameKeys (Table.values_positioned 0 values)).symm
  have attempted : (Rule.attempts (interpreter.evaluate 1) scope
      (Table.positioned 0 nodes)).from? state = some (.ok (values.map .ok), state) :=
    interpreter.attempts_literals literals 0 state
  have built := from?_template_of_attempts (Table.distinct_positioned 0 nodes) attempted sameLength
    (.built values)
  rw [sameTable] at built
  exact ⟨2, built⟩

end Interpreter

/-! ## Operators on sequences -/

/-- The node that appends to a struct. -/
def Node.appending (target value : Node) : Node :=
  .expression (.operator Operator.append.symbol) target value

/-- The node that reads the field under a key. -/
def Node.reading (key target : Node) : Node :=
  .expression (.operator Operator.keyRead.symbol) key target

namespace Interpreter

variable (interpreter : Interpreter) {scope cell : Cell}

variable {left right : Node} {before between after : State} {first second : Value}

/-- Operands that end within different depths end within a common one. -/
theorem both_of_ends (leftEnds : interpreter.Ends scope left before (.ok first) between)
    (rightEnds : interpreter.Ends scope right between (.ok second) after) :
    ∃ depth, (Rule.both (interpreter.evaluate depth) scope left right).from? before =
      some (.ok (first, second), after) := by
  obtain ⟨depth, ranLeft⟩ := leftEnds
  obtain ⟨depth', ranRight⟩ := rightEnds
  have deeper := interpreter.evaluate_extends (Nat.le_max_left depth depth')
  have deeper' := interpreter.evaluate_extends (Nat.le_max_right depth depth')
  exact ⟨_, Rule.from?_both_of_ok (deeper scope left ranLeft) (deeper' scope right ranRight)⟩

theorem ends_appending
    (leftEnds : interpreter.Ends scope left before (.ok (.struct cell)) between)
    (rightEnds : interpreter.Ends scope right between (.ok second) after) :
    interpreter.Ends scope (left.appending right) before (.ok .void)
      { after with heap := after.heap.write cell ((after.heap.read cell).push second) } := by
  obtain ⟨depth, both⟩ := interpreter.both_of_ends leftEnds rightEnds
  refine ⟨depth + 1, ?_⟩
  rw [Node.appending, interpreter.evaluate_operator, Run.from?_tagged]
  simp only [apply, Rule.append]
  rw [Run.from?_bind_ok both]
  rfl

theorem ends_reading {key : String} {value : Value}
    (leftEnds : interpreter.Ends scope left before (.ok first) between)
    (rightEnds : interpreter.Ends scope right between (.ok (.struct cell)) after)
    (spells : first.key? = some key) (found : after.heap.get? cell key = some value) :
    interpreter.Ends scope (left.reading right) before (.ok value) after := by
  obtain ⟨depth, both⟩ := interpreter.both_of_ends leftEnds rightEnds
  refine ⟨depth + 1, ?_⟩
  rw [Node.reading, interpreter.evaluate_operator, Run.from?_tagged]
  simp only [apply, Rule.keyRead]
  rw [Run.from?_bind_ok both, Rule.fieldUnder, spells]
  change some (Except.ok ((after.heap.get? cell key).getD .void), after) = _
  rw [found]
  rfl

end Interpreter

/-! ## Main result -/

/-- A value is appended under the least number, from the size of the table up, that is no key, which
is found after at most one probe more than there are keys. A sequence holds its values under their
positions; it grows into a sequence, a list of literals evaluates to one, and a number that a double
holds exactly reads the element at that position. -/
theorem sequences_hold_values_under_positions (interpreter : Interpreter) :
    (∀ (table : Table Value) (value : Value), table.Distinct →
      ∃ index,
        (∃ probes ≤ table.length + 1, table.Probes table.length probes index) ∧
        IsLeast {index | table.length ≤ index ∧ Nat.repr index ∉ table.keys} index ∧
        table.push value = table ++ [(Nat.repr index, value)] ∧
        (table.push value).Distinct ∧
        (table.push value).values = table.values ++ [value]) ∧
      ∀ values : List Value,
        (Table.sequence values).keys = (List.range values.length).map Nat.repr ∧
        (∀ heap : Heap, (heap.alloc (Table.sequence values)).2.elements? (.struct heap.size) =
          some values) ∧
        (∀ scope cell left right before between after value,
          interpreter.Ends scope left before (.ok (.struct cell)) between →
          interpreter.Ends scope right between (.ok value) after →
          after.heap.read cell = Table.sequence values →
            interpreter.Ends scope (left.appending right) before (.ok .void)
              { after with heap := after.heap.write cell (Table.sequence (values ++ [value])) }) ∧
        (∀ nodes, List.Forall₂ (fun node value => node.literal? = some value) nodes values →
          ∀ scope state,
            interpreter.Ends scope (Node.list nodes) state (.ok (.struct state.heap.size))
              (state.entering (Table.sequence values))) ∧
        ∀ scope cell left right before between after index, index < 2 ^ 53 →
          interpreter.Ends scope left before (.ok (.number (Float.ofNat index))) between →
          interpreter.Ends scope right between (.ok (.struct cell)) after →
          after.heap.read cell = Table.sequence values → ∀ inside : index < values.length,
            interpreter.Ends scope (left.reading right) before (.ok values[index]) after := by
  refine ⟨fun table value distinct => ?_, fun values => ⟨Table.keys_sequence values, ?_, ?_,
    fun nodes literals => interpreter.ends_list literals, ?_⟩⟩
  · exact ⟨table.freeIndex, table.probes_freeIndex, table.isLeast_freeIndex,
      table.push_eq_append value, distinct.insert _ value, table.values_push value⟩
  · intro heap
    rw [Heap.elements?, Value.cell?, Option.map_some, Heap.read_alloc_self, Table.values_sequence]
  · intro scope cell left right before between after value leftEnds rightEnds holds
    have ends := interpreter.ends_appending leftEnds rightEnds
    rw [holds, Table.push_sequence] at ends
    exact ends
  · intro scope cell left right before between after index exact leftEnds rightEnds holds inside
    have spells : (Value.number (Float.ofNat index)).key? = some (Nat.repr index) :=
      congrArg some (numberText_ofNat exact)
    refine interpreter.ends_reading leftEnds rightEnds spells ?_
    rw [Heap.get?, holds, Table.get?_sequence values inside]

theorem taken_position_is_skipped :
    (∃ index, (∃ probes ≤ 2, Table.Probes [("1", Value.bool true)] 1 probes index) ∧
        Table.push [("1", .bool true)] Value.void =
          [("1", .bool true), (Nat.repr index, .void)] ∧ index = 2) ∧
      ({} : Interpreter).Ends 0
        ((Node.constant (.number (Float.ofNat 1))).reading
          (Node.list [.void, .constant (.string "second")])) {}
        (.ok (.string "second"))
        (State.entering {} (Table.sequence [.void, .string "second"])) := by
  obtain ⟨appends, sequences⟩ := sequences_hold_values_under_positions {}
  obtain ⟨_, _, _, lists, reads⟩ := sequences [.void, .string "second"]
  have listEnds := lists [.void, .constant (.string "second")] (.cons rfl (.cons rfl .nil)) 0 {}
  refine ⟨?_, reads 0 _ _ _ _ _ _ 1 (by decide) ⟨1, rfl⟩ listEnds rfl (by decide)⟩
  obtain ⟨index, probed, least, pushed, _⟩ := appends [("1", .bool true)] .void (by decide)
  refine ⟨index, probed, pushed, ?_⟩
  have atLeast : 1 ≤ index := least.1.1
  have notOne : index ≠ 1 := by
    rintro rfl
    exact least.1.2 (by decide)
  have atMost : index ≤ 2 := least.2 ⟨by decide, by decide⟩
  omega

end Tabula
