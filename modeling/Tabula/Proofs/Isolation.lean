import Tabula.Proofs.Confinement

/-!
# Imports are isolated

An imported program starts in an empty scope, so nothing of the importer's heap can be reached from
its run. Hence an import that fails has changed no cell that was there before it, and one that
succeeds has only bound the name of the module; what the module exports is made of new cells.
-/

namespace Tabula

open Heap

/-- The state in which an imported program starts: a number is drawn as the stamp of the program,
and its initial scope is a new empty cell. -/
def State.entered (state : State) : State :=
  { state with heap := (state.heap.alloc []).2, supply := state.supply + 1 }

/-- An operand of an import names a program that, run in an empty scope, ends in the middle state
and leaves this name for the module and this value as its export. -/
def Interpreter.Loads (interpreter : Interpreter) (depth : Nat) (operand : Node)
    (state middle : State) (name : String) (exported : Value) : Prop :=
  ∃ path statements loaded,
    (Rule.importPath interpreter.config operand).from? state = some (.ok path, state) ∧
      interpreter.loader state.supply path = .ok statements ∧
      (Rule.program (interpreter.evaluate depth) statements state.heap.size).from?
          state.entered = some (.ok loaded, middle) ∧
      middle.heap.get? loaded Reserved.moduleName = some (.string name) ∧
      exported = (middle.heap.get? loaded Reserved.exported).getD .void

/-- An import binds what the named program exports to the name that it declares. -/
def Interpreter.Imports (interpreter : Interpreter) (depth : Nat) (scope : Cell) (operand : Node)
    (state after : State) (name : String) (exported : Value) : Prop :=
  ∃ middle, interpreter.Loads depth operand state middle name exported ∧
    after = { middle with heap := middle.heap.insert scope name exported }

/-- The node that imports its right operand. -/
def Node.importing (left operand : Node) : Node :=
  .expression (.operator Operator.importModule.symbol) left operand

namespace Rule

theorem from?_importPath (config : ImportConfig) (operand : Node) {state after : State}
    {outcome : Except Error String}
    (ended : (importPath config operand).from? state = some (outcome, after)) :
    after = state := by
  unfold importPath at ended
  split at ended <;> cases ended <;> rfl

theorem from?_ofCollaborator {α : Type} (answer : Except Collaborator α) {state after : State}
    {outcome : Except Error α}
    (ended : (Run.ofCollaborator answer).from? state = some (outcome, after)) :
    after = state := by
  cases answer <;> cases ended <;> rfl

theorem from?_ofCollaborator_ok {α : Type} {answer : Except Collaborator α} {value : α}
    {state after : State}
    (ended : (Run.ofCollaborator answer).from? state = some (.ok value, after)) :
    answer = .ok value ∧ after = state := by
  cases answer with
  | ok found =>
      cases ended
      exact ⟨rfl, rfl⟩
  | error cause => exact nomatch ended

/-- An import either ends without running a program, or as the imported program does that runs in
an empty scope, or in an error after it, or by binding what was exported. -/
theorem importModule_cases (interpreter : Interpreter) {depth : Nat} {scope : Cell}
    {operand : Node} {state after : State} {outcome : Except Error Value}
    (ended : (importModule interpreter (interpreter.evaluate depth) scope operand).from? state =
      some (outcome, after)) :
    (∃ error, outcome = .error error ∧ after.heap = state.heap) ∨
      (∃ error statements result, outcome = .error error ∧
        (program (interpreter.evaluate depth) statements state.heap.size).from?
          state.entered = some (result, after)) ∨
      ∃ name exported, outcome = .ok .void ∧
        interpreter.Imports depth scope operand state after name exported := by
  rcases Run.bind_ended ended with ⟨error, failed, rfl⟩ | ⟨path, afterPath, named, fromPath⟩
  · exact Or.inl ⟨error, rfl, by rw [from?_importPath _ _ failed]⟩
  obtain rfl := from?_importPath _ _ named
  rcases Run.bind_ended fromPath with ⟨error, failed, rfl⟩ | ⟨stamp, afterStamp, drawn, fromStamp⟩
  · exact nomatch failed
  cases drawn
  rcases Run.bind_ended fromStamp with ⟨error, failed, rfl⟩ |
    ⟨statements, afterLoad, loaded, fromLoad⟩
  · exact Or.inl ⟨error, rfl, by rw [from?_ofCollaborator _ failed]⟩
  obtain ⟨answered, rfl⟩ := from?_ofCollaborator_ok loaded
  rcases Run.bind_ended fromLoad with ⟨error, failed, rfl⟩ | ⟨initial, entered, made, fromStart⟩
  · exact nomatch failed
  cases made
  rcases Run.bind_ended fromStart with ⟨error, failed, rfl⟩ | ⟨inner, middle, ran, fromEnd⟩
  · exact Or.inr (Or.inl ⟨error, statements, _, rfl, failed⟩)
  rcases Run.bind_ended fromEnd with ⟨error, failed, rfl⟩ | ⟨found, afterName, looked, fromName⟩
  · exact nomatch failed
  cases looked
  split at fromName
  · rename_i name isName
    cases fromName
    exact Or.inr (Or.inr ⟨name, _, rfl, middle,
      ⟨path, statements, inner, named, answered, ran, isName, rfl⟩, rfl⟩)
  · cases fromName
    exact Or.inr (Or.inl ⟨_, statements, _, rfl, ran⟩)

end Rule

/-- The cells of the first heap are as they were, and the others lead to one another only. -/
structure Heap.GrownApart (before after : Heap) : Prop where
  grown : before.size ≤ after.size
  frame : ∀ cell < before.size, after.read cell = before.read cell
  closed : ∀ cell, before.size ≤ cell → ∀ value ∈ (after.read cell).values,
    value.Within (fun cell => before.size ≤ cell ∧ cell < after.size)
      (fun cell => before.size ≤ cell ∧ cell < after.size)

/-- An imported program leaves the heap of the importer alone, and ends in a new scope. -/
theorem Heap.GrownApart.of_program (interpreter : Interpreter) {depth : Nat}
    {statements : Program} {state middle : State} {outcome : Except Error Cell}
    (ran : (Rule.program (interpreter.evaluate depth) statements state.heap.size).from?
      state.entered = some (outcome, middle)) :
    state.heap.GrownApart middle.heap ∧
      ∀ loaded, outcome = .ok loaded → state.heap.size ≤ loaded := by
  let discipline := Discipline.confinement state.heap []
  have governs : discipline.Governs (interpreter.evaluate depth) :=
    Discipline.governs_evaluate interpreter depth
  have started : discipline.kept state := Discipline.confinement_start state []
  have entered : discipline.kept state.entered :=
    discipline.fresh
      (discipline.alloc started trivial fun _ member => absurd member List.not_mem_nil)
  have sizeEntered : state.entered.heap.size = state.heap.size + 1 := state.heap.size_alloc []
  have readable : discipline.readable state.entered.heap.size state.heap.size :=
    Or.inr ⟨Nat.le_refl _, sizeEntered ▸ Nat.lt_succ_self _⟩
  have ended := Discipline.program_keeps governs statements readable entered _ _ ran
  -- nothing is reached from no values, so all that may be held is new
  have lent : ∀ {size : Nat} {cell : Cell}, state.heap.Lends [] size cell →
      state.heap.size ≤ cell ∧ cell < size := fun lends =>
    lends.resolve_left fun reaches => not_reaches_nil _ _ (Or.inl reaches)
  have shown : ∀ {size : Nat} {cell : Cell}, state.heap.Shows [] size cell →
      state.heap.size ≤ cell ∧ cell < size := fun shows =>
    shows.resolve_left (not_reaches_nil _ _)
  constructor
  · exact {
      grown := ended.kept.1
      frame := fun cell old =>
        ended.kept.2.1 cell old fun reaches => not_reaches_nil _ _ (Or.inl reaches)
      closed := fun cell new value member =>
        (ended.kept.2.2 cell (Or.inr new) value member).mono (fun _ => lent) (fun _ => shown) }
  · intro loaded isLoaded
    exact (lent (ended.value loaded isLoaded)).1

/-- What an import binds is new, and nothing else of the importer changes. -/
theorem Interpreter.Imports.effect {interpreter : Interpreter} {depth : Nat} {scope : Cell}
    {operand : Node} {state after : State} {name : String} {exported : Value}
    (imports : interpreter.Imports depth scope operand state after name exported)
    (allocated : scope < state.heap.size) :
    after.heap.read scope = (state.heap.read scope).insert name exported ∧
      (∀ cell < state.heap.size, cell ≠ scope →
        after.heap.read cell = state.heap.read cell) ∧
      ∀ cell, after.heap.Reaches [exported] cell →
        state.heap.size ≤ cell ∧ cell < after.heap.size := by
  obtain ⟨middle, ⟨path, statements, loaded, _, _, ran, _, isExported⟩, rfl⟩ := imports
  obtain ⟨apart, newScope⟩ := Heap.GrownApart.of_program interpreter ran
  have stillAllocated : scope < middle.heap.size := Nat.lt_of_lt_of_le allocated apart.grown
  have exportedNew :
      exported.Within (fun cell => state.heap.size ≤ cell ∧ cell < middle.heap.size)
        (fun cell => state.heap.size ≤ cell ∧ cell < middle.heap.size) := by
    rw [isExported]
    cases found : middle.heap.get? loaded Reserved.exported with
    | none => trivial
    | some value =>
        exact apart.closed loaded (newScope loaded rfl) value (Table.mem_values_of_get? found)
  refine ⟨?_, ?_, ?_⟩
  · rw [read_insert_self _ _ _ stillAllocated, apart.frame scope allocated]
  · intro cell old different
    rw [read_insert_of_ne _ _ _ (Ne.symm different)]
    exact apart.frame cell old
  · intro cell reaches
    simp only [size_insert]
    refine Reaches.of_closed
      (fun cell => state.heap.size ≤ cell ∧ cell < middle.heap.size) ?_ ?_ reaches
    · intro value member
      rw [List.mem_singleton.mp member]
      exact exportedNew
    · intro reached new value member
      rw [read_insert_of_ne _ _ _ (Nat.ne_of_lt (Nat.lt_of_lt_of_le allocated new.1))] at member
      exact apart.closed reached new.1 value member

/-- An import that fails changes no cell that was there before it. One that succeeds only binds,
in the importing scope, the name that the loaded program declares to the value that it exports;
every cell reached from that value was allocated during the import, and no later import binds a
value from which one of them is reached. -/
theorem import_isolated (interpreter : Interpreter) {depth : Nat} {scope : Cell}
    {left operand : Node} {state after : State} {outcome : Except Error Value}
    (allocated : scope < state.heap.size)
    (ended : (interpreter.evaluate (depth + 1) scope (Node.importing left operand)).from? state =
      some (outcome, after)) :
    (∃ error, outcome = .error error ∧
        ∀ cell < state.heap.size, after.heap.read cell = state.heap.read cell) ∨
      ∃ name exported, outcome = .ok .void ∧
        interpreter.Imports depth scope operand state after name exported ∧
        after.heap.read scope = (state.heap.read scope).insert name exported ∧
        (∀ cell < state.heap.size, cell ≠ scope →
          after.heap.read cell = state.heap.read cell) ∧
        (∀ cell, after.heap.Reaches [exported] cell →
          state.heap.size ≤ cell ∧ cell < after.heap.size) ∧
        ∀ (laterDepth : Nat) (laterScope : Cell) (laterOperand : Node) (later final : State)
          (laterName : String) (laterExported : Value),
          after.heap.size ≤ later.heap.size → laterScope < later.heap.size →
          interpreter.Imports laterDepth laterScope laterOperand later final laterName
            laterExported →
          ∀ cell, after.heap.Reaches [exported] cell →
            ¬ final.heap.Reaches [laterExported] cell := by
  rw [Node.importing, Interpreter.evaluate_operator, Run.from?_tagged,
    Option.map_eq_some_iff] at ended
  obtain ⟨⟨result, reached⟩, ranTo, same⟩ := ended
  cases same
  rcases Rule.importModule_cases interpreter ranTo with
    ⟨error, rfl, sameHeap⟩ | ⟨error, statements, inner, rfl, ran⟩ | ⟨name, exported, rfl, imports⟩
  · exact Or.inl ⟨_, rfl, fun cell _ => by rw [sameHeap]⟩
  · exact Or.inl ⟨_, rfl, (Heap.GrownApart.of_program interpreter ran).1.frame⟩
  · obtain ⟨bound, frame, new⟩ := imports.effect allocated
    refine Or.inr ⟨name, exported, rfl, imports, bound, frame, new, ?_⟩
    intro laterDepth laterScope laterOperand later final laterName laterExported grown
      laterAllocated laterImports cell reaches laterReaches
    have old : cell < after.heap.size := (new cell reaches).2
    have laterNew : later.heap.size ≤ cell :=
      ((laterImports.effect laterAllocated).2.2 cell laterReaches).1
    exact Nat.lt_irrefl cell (Nat.lt_of_lt_of_le old (Nat.le_trans grown laterNew))

/-- Keeps one program, which exports a struct as a module. -/
private def oneModule : Interpreter :=
  { loader := Loader.memory
      [("point", [
        .expression (.operator "module") .void (.atom "origin"),
        .expression (.operator "export") .void
          (.template [("x", .constant (.bool true)), ("y", .template [])])])] }

/-- A single empty scope. -/
private def emptyScope : State := { heap := ⟨#[[]]⟩ }

/-- The scope after the import of the module. -/
private def withModule : State :=
  { heap := ⟨#[
      [("origin", .struct 4)],
      [],
      [(Reserved.moduleName, .string "origin"), (Reserved.exported, .struct 4)],
      [],
      [("x", .bool true), ("y", .struct 3)]]⟩,
    supply := 1 }

theorem import_binds_new_structs :
    (oneModule.evaluate 4 0 (Node.importing .void (.constant (.string "point")))).from?
        emptyScope = some (.ok .void, withModule) ∧
      withModule.heap.Reaches [.struct 4] 3 ∧
      ∀ cell, withModule.heap.Reaches [.struct 4] cell →
        emptyScope.heap.size ≤ cell ∧ cell < withModule.heap.size := by
  have allocated : 0 < emptyScope.heap.size := by decide
  have ended :
      (oneModule.evaluate 4 0 (Node.importing .void (.constant (.string "point")))).from?
        emptyScope = some (.ok .void, withModule) := rfl
  refine ⟨ended, ?_, ?_⟩
  · have inner : Value.struct 3 ∈ [Value.bool true, Value.struct 3] := by simp
    exact Or.inl (.field (.root List.mem_cons_self) inner)
  · rcases import_isolated oneModule allocated ended with
      ⟨error, failed, _⟩ | ⟨name, exported, _, _, bound, _, new, _⟩
    · exact nomatch failed
    · cases bound
      exact new

end Tabula
