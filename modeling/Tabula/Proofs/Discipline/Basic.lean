import Tabula.Evaluation
import Tabula.Proofs.Reachability

/-!
# Disciplines

A discipline fixes which cells a run may come to hold, of which shape the tables are that it
handles, and what it keeps true of the state. The laws of a discipline speak only about single
steps: reading a table, allocating a cell, inserting an entry, drawing a number and printing a line.

`Discipline.Keeps` says that a step of evaluation obeys a discipline, whether it ends with a value
or with an error. It is closed under all ways to combine steps, so whatever single steps keep is
kept by whole programs.
-/

namespace Tabula

/-- What a run may hold and what it keeps true. Cells are allowed from a number of allocated cells
on, so that a run may be allowed the cells that it allocates. -/
structure Discipline where
  /-- The structs and scopes that a run may hold. It may write them. -/
  writable : Nat → Cell → Prop
  /-- The captured scopes that a run may hold. It may read them. -/
  readable : Nat → Cell → Prop
  shape : Table Value → Prop
  kept : State → Prop
  writable_mono : ∀ {size larger : Nat} {cell : Cell},
    size ≤ larger → writable size cell → writable larger cell
  readable_mono : ∀ {size larger : Nat} {cell : Cell},
    size ≤ larger → readable size cell → readable larger cell
  readable_of_writable : ∀ {size : Nat} {cell : Cell}, writable size cell → readable size cell
  shape_nil : shape []
  shape_insert : ∀ {table : Table Value} (key : String) (value : Value),
    shape table → shape (table.insert key value)
  read : ∀ {state : State} {cell : Cell}, kept state → readable state.heap.size cell →
    shape (state.heap.read cell) ∧
      ∀ value ∈ (state.heap.read cell).values,
        value.Within (writable state.heap.size) (readable state.heap.size)
  alloc : ∀ {state : State} {table : Table Value}, kept state → shape table →
    (∀ value ∈ table.values, value.Within (writable state.heap.size) (readable state.heap.size)) →
    kept { state with heap := (state.heap.alloc table).2 }
  writable_alloc : ∀ {state : State}, kept state →
    writable (state.heap.size + 1) state.heap.size
  insert : ∀ {state : State} {cell : Cell} {value : Value} (key : String), kept state →
    writable state.heap.size cell →
    value.Within (writable state.heap.size) (readable state.heap.size) →
    kept { state with heap := state.heap.insert cell key value }
  fresh : ∀ {state : State}, kept state → kept { state with supply := state.supply + 1 }
  print : ∀ {state : State} (line : String), kept state →
    kept { state with printed := state.printed ++ line ++ "\n" }

namespace Discipline

variable (discipline : Discipline)

/-- The values that a run may hold when there are so many cells. -/
def Admits (size : Nat) (value : Value) : Prop :=
  value.Within (discipline.writable size) (discipline.readable size)

/-- The tables that a run may handle when there are so many cells. -/
def AdmitsTable (size : Nat) (table : Table Value) : Prop :=
  discipline.shape table ∧ ∀ value ∈ table.values, discipline.Admits size value

variable {discipline}

theorem Admits.mono {size larger : Nat} {value : Value} (admits : discipline.Admits size value)
    (grown : size ≤ larger) : discipline.Admits larger value :=
  Value.Within.mono admits
    (fun _ => discipline.writable_mono grown) (fun _ => discipline.readable_mono grown)

/-- What was wanted of a value stays true of it when cells are added. -/
def Lasting {α : Type} (wanted : Nat → α → Prop) : Prop :=
  ∀ (size larger : Nat) (value : α), size ≤ larger → wanted size value → wanted larger value

theorem lasting_admits : Lasting discipline.Admits :=
  fun _ _ _ grown admits => admits.mono grown

theorem admits_constant (size : Nat) (constant : Constant) :
    discipline.Admits size constant.value := by
  cases constant <;> trivial

/-! ## Tables -/

namespace AdmitsTable

theorem nil (size : Nat) : discipline.AdmitsTable size [] :=
  ⟨discipline.shape_nil, fun _ member => absurd member List.not_mem_nil⟩

theorem mono {size larger : Nat} {table : Table Value}
    (admits : discipline.AdmitsTable size table) (grown : size ≤ larger) :
    discipline.AdmitsTable larger table :=
  ⟨admits.1, fun value member => (admits.2 value member).mono grown⟩

theorem insert {size : Nat} {table : Table Value} {value : Value} (key : String)
    (admits : discipline.AdmitsTable size table) (admitsValue : discipline.Admits size value) :
    discipline.AdmitsTable size (table.insert key value) := by
  refine ⟨discipline.shape_insert key value admits.1, ?_⟩
  intro other member
  rcases Table.mem_values_insert member with rfl | old
  · exact admitsValue
  · exact admits.2 other old

theorem overlay {size : Nat} {table : Table Value} {entries : List (String × Value)}
    (admits : discipline.AdmitsTable size table)
    (admitsEntries : ∀ entry ∈ entries, discipline.Admits size entry.2) :
    discipline.AdmitsTable size (table.overlay entries) := by
  induction entries generalizing table with
  | nil => exact admits
  | cons entry rest inductionHypothesis =>
      rw [Table.overlay, List.foldl_cons]
      apply inductionHypothesis
      · exact admits.insert entry.1 (admitsEntries entry List.mem_cons_self)
      · intro other member
        exact admitsEntries other (List.mem_cons_of_mem entry member)

theorem push {size : Nat} {table : Table Value} {value : Value}
    (admits : discipline.AdmitsTable size table) (admitsValue : discipline.Admits size value) :
    discipline.AdmitsTable size (table.push value) :=
  admits.insert (Nat.repr table.freeIndex) admitsValue

theorem sequence {size : Nat} {values : List Value}
    (admitsValues : ∀ value ∈ values, discipline.Admits size value) :
    discipline.AdmitsTable size (Table.sequence values) := by
  suffices general : ∀ {table : Table Value}, discipline.AdmitsTable size table →
      discipline.AdmitsTable size (values.foldl Table.push table) from general (nil size)
  induction values with
  | nil => exact fun admits => admits
  | cons value rest inductionHypothesis =>
      intro table admits
      rw [List.foldl_cons]
      apply inductionHypothesis
      · exact fun other member => admitsValues other (List.mem_cons_of_mem value member)
      · exact admits.push (admitsValues value List.mem_cons_self)

theorem get? {size : Nat} {table : Table Value} {key : String} {value : Value}
    (admits : discipline.AdmitsTable size table) (found : table.get? key = some value) :
    discipline.Admits size value :=
  admits.2 value (Table.mem_values_of_get? found)

end AdmitsTable

theorem admitsTable_read {state : State} {cell : Cell} (kept : discipline.kept state)
    (readable : discipline.readable state.heap.size cell) :
    discipline.AdmitsTable state.heap.size (state.heap.read cell) :=
  discipline.read kept readable

/-- A field of a value that may be held may be held. -/
theorem admits_field {state : State} {value : Value} (key : String)
    (kept : discipline.kept state) (admits : discipline.Admits state.heap.size value) :
    discipline.Admits state.heap.size (state.heap.field value key) := by
  cases value with
  | struct cell =>
      have table := admitsTable_read kept (discipline.readable_of_writable admits)
      cases found : state.heap.get? cell key with
      | none => simp only [Heap.field, found]; trivial
      | some value =>
          simp only [Heap.field, found]
          exact table.get? found
  | _ => trivial

/-! ## Steps that obey a discipline -/

/-- How a step ends that began with so many cells: the state is kept, no cell is lost, and a value
is as wanted. -/
structure Ends (discipline : Discipline) {α : Type} (size : Nat) (wanted : Nat → α → Prop)
    (outcome : Except Error α) (after : State) : Prop where
  kept : discipline.kept after
  grown : size ≤ after.heap.size
  value : ∀ value, outcome = .ok value → wanted after.heap.size value

/-- However the step ends, it ends as it should. -/
def Keeps (discipline : Discipline) {α : Type} (state : State) (run : Run α)
    (wanted : Nat → α → Prop) : Prop :=
  discipline.kept state → ∀ outcome after, run.from? state = some (outcome, after) →
    discipline.Ends state.heap.size wanted outcome after

/-- Every evaluation in a scope that may be held obeys the discipline. -/
def Governs (discipline : Discipline) (eval : Evaluator) : Prop :=
  ∀ (state : State) (scope : Cell) (node : Node), discipline.writable state.heap.size scope →
    discipline.Keeps state (eval scope node) discipline.Admits

namespace Keeps

variable {α β : Type} {state : State} {wanted : Nat → α → Prop}

theorem pure {value : α}
    (wantedValue : discipline.kept state → wanted state.heap.size value) :
    discipline.Keeps state (Pure.pure value) wanted := by
  intro kept outcome after ended
  rw [Run.from?_pure] at ended
  cases ended
  refine ⟨kept, Nat.le_refl _, ?_⟩
  intro value isValue
  cases isValue
  exact wantedValue kept

theorem throw (error : Error) :
    discipline.Keeps state (throw error : Run α) wanted := by
  intro kept outcome after ended
  cases ended
  exact ⟨kept, Nat.le_refl _, fun value isValue => nomatch isValue⟩

theorem fail (reason : Reason) : discipline.Keeps state (Run.fail reason : Run α) wanted :=
  throw (Error.ofReason reason)

theorem unfinished : discipline.Keeps state (Run.unfinished : Run α) wanted :=
  fun _ _ _ ended => nomatch ended

/-- A sequence obeys if its first step does, and its second one wherever the first may end. -/
theorem bind {middle : Nat → β → Prop} {run : Run β} {next : β → Run α}
    (first : discipline.Keeps state run middle)
    (second : ∀ after value, state.heap.size ≤ after.heap.size → middle after.heap.size value →
      discipline.Keeps after (next value) wanted) :
    discipline.Keeps state (run >>= next) wanted := by
  intro kept outcome after ended
  rw [Run.from?_bind] at ended
  split at ended
  · rename_i value between firstEnded
    have reached := first kept _ _ firstEnded
    have final :=
      second between value reached.grown (reached.value value rfl) reached.kept _ _ ended
    exact ⟨final.kept, Nat.le_trans reached.grown final.grown, final.value⟩
  · rename_i error between firstEnded
    have reached := first kept _ _ firstEnded
    cases ended
    exact ⟨reached.kept, reached.grown, fun value isValue => nomatch isValue⟩
  · cases ended

theorem map {middle : Nat → β → Prop} {run : Run β} {change : β → α}
    (keeps : discipline.Keeps state run middle)
    (wantedValue : ∀ size value, middle size value → wanted size (change value)) :
    discipline.Keeps state (change <$> run) wanted := by
  rw [map_eq_pure_bind]
  exact keeps.bind fun after value _ wantedHere => pure fun _ => wantedValue _ value wantedHere

/-- An attempt obeys as the step does; its value is the outcome. -/
theorem attempt {run : Run α} (keeps : discipline.Keeps state run wanted) :
    discipline.Keeps state (Run.attempt run)
      fun size outcome => ∀ value, outcome = .ok value → wanted size value := by
  intro kept outcome after ended
  rw [Run.from?_attempt, Option.map_eq_some_iff] at ended
  obtain ⟨⟨result, between⟩, ranTo, same⟩ := ended
  cases same
  have reached := keeps kept _ _ ranTo
  refine ⟨reached.kept, reached.grown, ?_⟩
  intro result isResult
  cases isResult
  exact reached.value

theorem ofExcept {outcome : Except Error α}
    (wantedValue : ∀ value, outcome = .ok value → wanted state.heap.size value) :
    discipline.Keeps state (Run.ofExcept outcome) wanted := by
  cases outcome with
  | ok value => exact pure fun _ => wantedValue value rfl
  | error error => exact throw error

theorem ofCollaborator {outcome : Except Collaborator α}
    (wantedValue : ∀ value, outcome = .ok value → wanted state.heap.size value) :
    discipline.Keeps state (Run.ofCollaborator outcome) wanted := by
  cases outcome with
  | ok value => exact pure fun _ => wantedValue value rfl
  | error cause => exact fail (.collaborator cause)

theorem tagged {run : Run α} (operator : Operator)
    (keeps : discipline.Keeps state run wanted) :
    discipline.Keeps state (Run.tagged operator run) wanted := by
  intro kept outcome after ended
  rw [Run.from?_tagged, Option.map_eq_some_iff] at ended
  obtain ⟨⟨result, between⟩, ranTo, same⟩ := ended
  cases same
  have reached := keeps kept _ _ ranTo
  refine ⟨reached.kept, reached.grown, ?_⟩
  cases result with
  | ok found => exact reached.value
  | error error => exact fun value isValue => nomatch isValue

/-! ## Single steps -/

/-- What comes after a look at the heap is given the heap as it stands. -/
theorem bindHeap {next : Heap → Run α}
    (second : discipline.Keeps state (next state.heap) wanted) :
    discipline.Keeps state (Run.heap >>= next) wanted := by
  intro kept outcome after ended
  rw [Run.from?_bind, Run.from?_heap] at ended
  exact second kept outcome after ended

theorem read {cell : Cell} (readable : discipline.readable state.heap.size cell) :
    discipline.Keeps state (Run.read cell) discipline.AdmitsTable := by
  intro kept outcome after ended
  rw [Run.from?_read] at ended
  cases ended
  refine ⟨kept, Nat.le_refl _, ?_⟩
  intro value isValue
  cases isValue
  exact admitsTable_read kept readable

theorem lookup {scope : Cell} (name : String)
    (readable : discipline.readable state.heap.size scope) :
    discipline.Keeps state (Run.lookup scope name)
      fun size found => ∀ value, found = some value → discipline.Admits size value := by
  intro kept outcome after ended
  rw [Run.from?_lookup] at ended
  cases ended
  refine ⟨kept, Nat.le_refl _, ?_⟩
  intro found isFound value isValue
  cases isFound
  exact (admitsTable_read kept readable).get? isValue

theorem alloc {table : Table Value} (admits : discipline.AdmitsTable state.heap.size table) :
    discipline.Keeps state (Run.alloc table) discipline.writable := by
  intro kept outcome after ended
  rw [Run.from?_alloc] at ended
  cases ended
  have grown : (state.heap.alloc table).2.size = state.heap.size + 1 :=
    state.heap.size_alloc table
  refine ⟨discipline.alloc kept admits.1 admits.2, ?_, ?_⟩
  · simp only [grown]
    exact Nat.le_succ state.heap.size
  · intro cell isCell
    cases isCell
    simp only [grown]
    exact discipline.writable_alloc kept

theorem modifyHeap {change : Heap → Heap}
    (keepsState : discipline.kept state →
      discipline.kept { state with heap := change state.heap })
    (grown : state.heap.size ≤ (change state.heap).size) :
    discipline.Keeps state (Run.modifyHeap change) fun _ _ => True := by
  intro kept outcome after ended
  rw [Run.from?_modifyHeap] at ended
  cases ended
  exact ⟨keepsState kept, grown, fun _ _ => trivial⟩

theorem insert {cell : Cell} {value : Value} (key : String)
    (writable : discipline.writable state.heap.size cell)
    (admits : discipline.Admits state.heap.size value) :
    discipline.Keeps state (Run.modifyHeap (·.insert cell key value)) fun _ _ => True :=
  modifyHeap (fun kept => discipline.insert key kept writable admits)
    (Nat.le_of_eq (state.heap.size_insert cell key value).symm)

theorem bindName {scope : Cell} {value : Value} (name : String)
    (writable : discipline.writable state.heap.size scope)
    (admits : discipline.Admits state.heap.size value) :
    discipline.Keeps state (Run.bindName scope name value) fun _ _ => True :=
  insert name writable admits

theorem fresh : discipline.Keeps state Run.fresh fun _ _ => True := by
  intro kept outcome after ended
  rw [Run.from?_fresh] at ended
  cases ended
  exact ⟨discipline.fresh kept, Nat.le_refl _, fun _ _ => trivial⟩

theorem printLine (line : String) :
    discipline.Keeps state (Run.printLine line) fun _ _ => True := by
  intro kept outcome after ended
  rw [Run.from?_printLine] at ended
  cases ended
  exact ⟨discipline.print line kept, Nat.le_refl _, fun _ _ => trivial⟩

end Keeps

end Discipline

end Tabula
