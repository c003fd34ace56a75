import Tabula.Heap
import Tabula.Library
import Tabula.Loader

/-!
Runs: what a piece of evaluation does to the heap and the printed text, and whether it gives a
value, fails or does not finish. A failure keeps the state it happened in, since what was done
before it stays done.
-/

namespace Tabula

/-- What evaluation changes. -/
structure State where
  heap : Heap := {}
  /-- The next serial number or stamp. -/
  supply : Nat := 0
  /-- Everything printed so far. -/
  printed : String := ""

/-- A step of evaluation. There is no outcome at all if it does not finish. -/
abbrev Run (α : Type) : Type := ExceptT Error (StateT State Option) α

/-- Where printed lines go. -/
inductive Sink where
  | stdout
  | buffer
  | silent
deriving DecidableEq, Repr

/-- What evaluation may reach for beside the heap, and how deeply it may nest. -/
structure Interpreter where
  config : ImportConfig := {}
  loader : Loader := Loader.none
  library : Library := {}
  sink : Sink := .stdout
  /-- Evaluation nested more deeply than this counts as not finishing. -/
  depth : Nat := 1000000

namespace Run

/-- Runs a step from a state. -/
def from? {α : Type} (run : Run α) (state : State) : Option (Except Error α × State) :=
  StateT.run (ExceptT.run run) state

/-- A step that does not finish. -/
def unfinished {α : Type} : Run α := ExceptT.mk fun _ => none

/-- Fails for a reason. -/
def fail {α : Type} (reason : Reason) : Run α := throw (Error.ofReason reason)

/-- Goes on with a result, or fails with its error. -/
def ofExcept {α : Type} : Except Error α → Run α
  | .ok value => pure value
  | .error error => throw error

/-- Goes on with what a loader, parser or library answered. -/
def ofCollaborator {α : Type} : Except Collaborator α → Run α
  | .ok value => pure value
  | .error cause => fail (.collaborator cause)

/-- Runs a step to its end and gives its outcome, so that others can run even if it failed. -/
def attempt {α : Type} (run : Run α) : Run (Except Error α) := ExceptT.lift (ExceptT.run run)

/-- Notes on the error of a step that it left an operator's rule. -/
def tagged {α : Type} (operator : Operator) (run : Run α) : Run α := run.adapt (·.tag operator)

/-- Renders the error of a step. -/
def rendered {α : Type} (run : Run α) : Run α := run.adapt Error.render

/-- The heap as it stands. -/
def heap : Run Heap := return (← get).heap

/-- Changes the heap. -/
def modifyHeap (change : Heap → Heap) : Run Unit :=
  modify fun state => { state with heap := change state.heap }

/-- The table in a cell. -/
def read (cell : Cell) : Run (Table Value) := return (← heap).read cell

/-- Allocates a cell that holds a table. -/
def alloc (table : Table Value) : Run Cell :=
  modifyGet fun state =>
    let (cell, heap) := state.heap.alloc table
    (cell, { state with heap })

/-- The value that a scope binds to a name. -/
def lookup (scope : Cell) (name : String) : Run (Option Value) := return (← heap).get? scope name

/-- Binds a name in a scope. -/
def bindName (scope : Cell) (name : String) (value : Value) : Run Unit :=
  modifyHeap (·.insert scope name value)

/-- Takes the next serial number or stamp. -/
def fresh : Run Nat :=
  modifyGet fun state => (state.supply, { state with supply := state.supply + 1 })

/-- Prints a line. -/
def printLine (line : String) : Run Unit :=
  modify fun state => { state with printed := state.printed ++ line ++ "\n" }

/-! ## What steps do to a state -/

theorem from?_pure {α : Type} (value : α) (state : State) :
    (pure value : Run α).from? state = some (.ok value, state) := rfl

/-- A sequence goes on only after a value, and from the state that the first step left. -/
theorem from?_bind {α β : Type} (run : Run α) (next : α → Run β) (state : State) :
    (run >>= next).from? state =
      match run.from? state with
      | some (.ok value, after) => (next value).from? after
      | some (.error error, after) => some (.error error, after)
      | none => none := by
  simp only [from?, ExceptT.run_bind, StateT.run_bind]
  cases StateT.run (ExceptT.run run) state with
  | none => rfl
  | some outcome =>
      obtain ⟨result, after⟩ := outcome
      cases result <;> rfl

/-- A sequence that ends has either failed in its first step or run its second. -/
theorem bind_ended {α β : Type} {run : Run α} {next : α → Run β} {state after : State}
    {outcome : Except Error β} (ended : (run >>= next).from? state = some (outcome, after)) :
    (∃ error, run.from? state = some (.error error, after) ∧ outcome = .error error) ∨
      ∃ value between, run.from? state = some (.ok value, between) ∧
        (next value).from? between = some (outcome, after) := by
  rw [from?_bind] at ended
  split at ended
  · rename_i value between ran
    exact Or.inr ⟨value, between, ran, ended⟩
  · rename_i error between ran
    cases ended
    exact Or.inl ⟨error, ran, rfl⟩
  · exact nomatch ended

theorem from?_ofExcept {α : Type} (outcome : Except Error α) (state : State) :
    (ofExcept outcome).from? state = some (outcome, state) := by
  cases outcome <;> rfl

/-- An attempt has a value whether or not the step failed, and leaves the state that the step left.
-/
theorem from?_attempt {α : Type} (run : Run α) (state : State) :
    (attempt run).from? state =
      (run.from? state).map fun (outcome, after) => (.ok outcome, after) := by
  exact StateT.run_map Except.ok run state

/-- Tagging changes the error of a failure and nothing else. -/
theorem from?_tagged {α : Type} (operator : Operator) (run : Run α) (state : State) :
    (tagged operator run).from? state =
      (run.from? state).map fun (outcome, after) => (outcome.mapError (·.tag operator), after) := by
  exact StateT.run_map (Except.mapError (·.tag operator)) run state

/-- Rendering changes the error of a failure and nothing else. -/
theorem from?_rendered {α : Type} (run : Run α) (state : State) :
    (rendered run).from? state =
      (run.from? state).map fun (outcome, after) => (outcome.mapError Error.render, after) := by
  exact StateT.run_map (Except.mapError Error.render) run state

theorem from?_heap (state : State) : heap.from? state = some (.ok state.heap, state) := rfl

theorem from?_modifyHeap (change : Heap → Heap) (state : State) :
    (modifyHeap change).from? state = some (.ok (), { state with heap := change state.heap }) := rfl

theorem from?_read (cell : Cell) (state : State) :
    (read cell).from? state = some (.ok (state.heap.read cell), state) := rfl

theorem from?_alloc (table : Table Value) (state : State) :
    (alloc table).from? state =
      some (.ok state.heap.size, { state with heap := (state.heap.alloc table).2 }) := rfl

theorem from?_lookup (scope : Cell) (name : String) (state : State) :
    (lookup scope name).from? state = some (.ok (state.heap.get? scope name), state) := rfl

theorem from?_bindName (scope : Cell) (name : String) (value : Value) (state : State) :
    (bindName scope name value).from? state =
      some (.ok (), { state with heap := state.heap.insert scope name value }) := rfl

theorem from?_fresh (state : State) :
    fresh.from? state = some (.ok state.supply, { state with supply := state.supply + 1 }) := rfl

theorem from?_printLine (line : String) (state : State) :
    (printLine line).from? state =
      some (.ok (), { state with printed := state.printed ++ line ++ "\n" }) := rfl

end Run

end Tabula
