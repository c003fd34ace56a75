import Mathlib.Logic.Relation
import Tabula.Proofs.Discipline.Rules

/-!
# Keys stay in the order in which they were first written

Every write to a table is an insertion: a key that is there keeps its place, and a new one goes
last. So whatever is evaluated, and however it ends, the keys that a cell had before are the first
keys that it has afterwards, in the same order; and no table ever lists a key twice.
-/

namespace Tabula

/-! ## Insertions -/

namespace Table

variable {α : Type}

theorem keys_prefix_insert (table : Table α) (key : String) (value : α) :
    table.keys <+: (table.insert key value).keys := by
  rw [keys_insert]
  by_cases present : key ∈ table.keys
  · simp [present]
  · simp [present]

end Table

/-! ## Heaps -/

namespace Heap

/-- No table lists a key twice. -/
def Distinct (heap : Heap) : Prop := ∀ cell, (heap.read cell).Distinct

/-- The keys of every cell come first in the later heap, in the same order. -/
def KeysExtend (earlier later : Heap) : Prop :=
  ∀ cell, (earlier.read cell).keys <+: (later.read cell).keys

variable {heap earlier : Heap}

theorem KeysExtend.refl (heap : Heap) : heap.KeysExtend heap :=
  fun cell => List.prefix_refl (heap.read cell).keys

theorem KeysExtend.trans {middle later : Heap} (first : earlier.KeysExtend middle)
    (second : middle.KeysExtend later) : earlier.KeysExtend later :=
  fun cell => (first cell).trans (second cell)

theorem read_insert_cases (heap : Heap) (written : Cell) (key : String) (value : Value)
    (cell : Cell) :
    (heap.insert written key value).read cell = heap.read cell ∨
      (heap.insert written key value).read cell = (heap.read cell).insert key value := by
  by_cases same : written = cell
  · subst same
    by_cases present : written < heap.size
    · exact Or.inr (heap.read_insert_self key value present)
    · have unchanged : heap.insert written key value = heap :=
        heap.write_of_size_le _ (Nat.le_of_not_lt present)
      exact Or.inl (by rw [unchanged])
  · exact Or.inl (heap.read_insert_of_ne key value same)

theorem keysExtend_alloc (heap : Heap) (table : Table Value) :
    heap.KeysExtend (heap.alloc table).2 := by
  intro cell
  by_cases isNew : cell = heap.size
  · have empty : heap.read cell = [] := heap.read_of_size_le (Nat.le_of_eq isNew.symm)
    simp [empty, Table.keys]
  · have same : (heap.alloc table).2.read cell = heap.read cell :=
      heap.read_alloc_of_ne table isNew
    exact same ▸ List.prefix_refl _

theorem keysExtend_insert (heap : Heap) (written : Cell) (key : String) (value : Value) :
    heap.KeysExtend (heap.insert written key value) := by
  intro cell
  rcases heap.read_insert_cases written key value cell with unchanged | inserted
  · exact unchanged ▸ List.prefix_refl _
  · rw [inserted]
    exact Table.keys_prefix_insert (heap.read cell) key value

theorem Distinct.alloc (distinct : heap.Distinct) {table : Table Value}
    (distinctTable : table.Distinct) : (heap.alloc table).2.Distinct := by
  intro cell
  by_cases isNew : cell = heap.size
  · rw [isNew, heap.read_alloc_self]
    exact distinctTable
  · rw [heap.read_alloc_of_ne table isNew]
    exact distinct cell

theorem Distinct.insert (distinct : heap.Distinct) (written : Cell) (key : String)
    (value : Value) : (heap.insert written key value).Distinct := by
  intro cell
  rcases heap.read_insert_cases written key value cell with unchanged | inserted
  · rw [unchanged]
    exact distinct cell
  · rw [inserted]
    exact (distinct cell).insert key value

end Heap

/-! ## Evaluations -/

/-- A run may hold every cell; it handles tables with distinct keys and keeps keys in order. -/
def Discipline.keyOrder (before : Heap) : Discipline where
  writable _ _ := True
  readable _ _ := True
  shape := Table.Distinct
  kept state := state.heap.Distinct ∧ before.KeysExtend state.heap
  writable_mono _ held := held
  readable_mono _ held := held
  readable_of_writable held := held
  shape_nil := List.nodup_nil
  shape_insert key value distinct := distinct.insert key value
  read := by
    rintro state cell ⟨distinct, _⟩ _
    -- every cell may be held, so whatever kind of value it is, it lies within
    refine ⟨distinct cell, fun value _ => ?_⟩
    cases value <;> simp [Value.Within]
  alloc := by
    rintro state table ⟨distinct, extend⟩ distinctTable _
    exact ⟨distinct.alloc distinctTable, extend.trans (state.heap.keysExtend_alloc table)⟩
  writable_alloc _ := trivial
  insert := by
    rintro state cell value key ⟨distinct, extend⟩ _ _
    have extendInsert := state.heap.keysExtend_insert cell key value
    exact ⟨distinct.insert cell key value, extend.trans extendInsert⟩
  fresh kept := kept
  print _ kept := kept

/-- The evaluation of a node, of a block or of a program leads from one state to another, whether it
succeeds or fails. -/
inductive Interpreter.Evaluates (interpreter : Interpreter) (state after : State) : Prop
  | node {depth : Nat} {scope : Cell} {node : Node} {outcome : Except Error Value} :
      (interpreter.evaluate depth scope node).from? state = some (outcome, after) →
      Evaluates interpreter state after
  | block {depth : Nat} {body : List Node} {bindings : Table Value}
      {outcome : Except Error Cell} :
      bindings.Distinct →
      (Rule.block (interpreter.evaluate depth) body bindings).from? state =
        some (outcome, after) →
      Evaluates interpreter state after
  | program {program : Program} {initial : Cell} {outcome : Except Error Cell} :
      (interpreter.execute program initial).from? state = some (outcome, after) →
      Evaluates interpreter state after

/-- Evaluations one after another lead from one state to another. -/
def State.LeadsTo : State → State → Prop :=
  Relation.ReflTransGen fun state after =>
    ∃ interpreter : Interpreter, interpreter.Evaluates state after

theorem Interpreter.Evaluates.keepsKeys {interpreter : Interpreter} {state after : State}
    (evaluates : interpreter.Evaluates state after) (distinct : state.heap.Distinct) :
    after.heap.Distinct ∧ state.heap.KeysExtend after.heap := by
  let discipline := Discipline.keyOrder state.heap
  have start : discipline.kept state := ⟨distinct, Heap.KeysExtend.refl state.heap⟩
  have governs : ∀ depth, discipline.Governs (interpreter.evaluate depth) :=
    Discipline.governs_evaluate interpreter
  cases evaluates with
  | node ran => exact (governs _ state _ _ trivial start _ _ ran).kept
  | @block depth body bindings outcome distinctBindings ran =>
      have admits : discipline.AdmitsTable state.heap.size bindings := by
        refine ⟨distinctBindings, fun value _ => ?_⟩
        cases value <;> simp [discipline, Discipline.keyOrder, Discipline.Admits, Value.Within]
      exact (Discipline.block_keeps (governs depth) body admits start _ _ ran).kept
  | @program program initial outcome ran =>
      have readable : discipline.readable state.heap.size initial := trivial
      exact (Discipline.execute_keeps interpreter program readable start _ _ ran).kept

theorem State.LeadsTo.keepsKeys {state after : State} (leads : state.LeadsTo after)
    (distinct : state.heap.Distinct) :
    after.heap.Distinct ∧ state.heap.KeysExtend after.heap := by
  induction leads with
  | refl => exact ⟨distinct, Heap.KeysExtend.refl state.heap⟩
  | tail _ step inductionHypothesis =>
      obtain ⟨interpreter, evaluates⟩ := step
      obtain ⟨distinctBefore, extendBefore⟩ := inductionHypothesis
      obtain ⟨distinctAfter, extendStep⟩ := evaluates.keepsKeys distinctBefore
      exact ⟨distinctAfter, extendBefore.trans extendStep⟩

/-- In every state that evaluations reach from tables with distinct keys, all tables have distinct
keys; and every evaluation in such a state, whether it succeeds or fails, keeps the keys of every
cell in their order and puts new ones last. So do all evaluations that may follow. -/
theorem keys_stay_in_first_write_order {start state : State} (distinct : start.heap.Distinct)
    (reached : start.LeadsTo state) :
    state.heap.Distinct ∧
      (∀ (interpreter : Interpreter) (after : State), interpreter.Evaluates state after →
        state.heap.KeysExtend after.heap) ∧
      ∀ later : State, state.LeadsTo later → state.heap.KeysExtend later.heap := by
  have distinctHere : state.heap.Distinct := (reached.keepsKeys distinct).1
  refine ⟨distinctHere, ?_, ?_⟩
  · intro interpreter after evaluates
    exact (evaluates.keepsKeys distinctHere).2
  · intro later leads
    exact (leads.keepsKeys distinctHere).2

/-- A scope with two bindings. -/
private def twoBindings : State := { heap := ⟨#[[("b", .void), ("a", .void)]]⟩ }

/-- Overwrites the first binding, makes a new one, and then fails. -/
private def overwritesAndFails : Node :=
  .template [
    ("first", .expression (.operator "<") (.atom "b") (.constant (.bool true))),
    ("second", .expression (.operator "<") (.atom "c") (.constant (.bool true))),
    ("third", .expression (.operator "new") .void (.atom "Table"))]

theorem failed_template_extends_keys :
    ∃ error after,
      (({} : Interpreter).evaluate 3 0 overwritesAndFails).from? twoBindings =
          some (.error error, after) ∧
        (twoBindings.heap.read 0).keys = ["b", "a"] ∧
        (after.heap.read 0).keys = ["b", "a", "c"] ∧
        twoBindings.heap.KeysExtend after.heap ∧ after.heap.Distinct := by
  have distinct : twoBindings.heap.Distinct := by
    intro cell
    match cell with
    | 0 =>
        have keys : (twoBindings.heap.read 0).keys = ["b", "a"] := rfl
        rw [Table.Distinct, keys]
        decide
    | beyond + 1 =>
        have empty : twoBindings.heap.read (beyond + 1) = [] :=
          twoBindings.heap.read_of_size_le (Nat.le_add_left 1 beyond)
        rw [empty]
        exact List.nodup_nil
  have ran : ∃ error after,
      (({} : Interpreter).evaluate 3 0 overwritesAndFails).from? twoBindings =
          some (.error error, after) ∧ (after.heap.read 0).keys = ["b", "a", "c"] :=
    ⟨_, _, rfl, rfl⟩
  obtain ⟨error, after, ran, keysAfter⟩ := ran
  have kept := keys_stay_in_first_write_order distinct .refl
  have leads : twoBindings.LeadsTo after := .single ⟨{}, .node ran⟩
  have keptAfter := keys_stay_in_first_write_order distinct leads
  exact ⟨error, after, ran, rfl, keysAfter, kept.2.1 {} after (.node ran), keptAfter.1⟩

end Tabula
