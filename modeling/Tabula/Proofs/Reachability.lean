import Tabula.Heap

/-!
# Reachability

What can be reached from some values: the fields of structs, and the bindings of the scopes that
actions were captured in. A captured scope is not itself among the structs reached, unless some
value is that scope as a struct.
-/

namespace Tabula

/-- Every struct that a value is, and every scope that it was captured in, is of the given sort. -/
def Value.Within (structs scopes : Cell → Prop) : Value → Prop
  | .struct cell => structs cell
  | .action block => ∀ cell, block.scope = some cell → scopes cell
  | _ => True

theorem Value.Within.mono {structs scopes moreStructs moreScopes : Cell → Prop} {value : Value}
    (within : value.Within structs scopes)
    (structsGrow : ∀ cell, structs cell → moreStructs cell)
    (scopesGrow : ∀ cell, scopes cell → moreScopes cell) :
    value.Within moreStructs moreScopes := by
  cases value with
  | struct cell => exact structsGrow cell within
  | action block => exact fun cell captured => scopesGrow cell (within cell captured)
  | _ => trivial

namespace Heap

/-- The values reached from some values. -/
inductive Reached (heap : Heap) (roots : List Value) : Value → Prop
  | root {value : Value} : value ∈ roots → Reached heap roots value
  | field {cell : Cell} {value : Value} :
      Reached heap roots (.struct cell) →
      value ∈ (heap.read cell).values →
      Reached heap roots value
  | captured {action : Action} {scope : Cell} {value : Value} :
      Reached heap roots (.action action) →
      action.scope = some scope →
      value ∈ (heap.read scope).values →
      Reached heap roots value

/-- The cell is a struct reached from the values. -/
def ReachesStruct (heap : Heap) (roots : List Value) (cell : Cell) : Prop :=
  heap.Reached roots (.struct cell)

/-- The cell is the captured scope of an action reached from the values. -/
def ReachesScope (heap : Heap) (roots : List Value) (cell : Cell) : Prop :=
  ∃ action, heap.Reached roots (.action action) ∧ action.scope = some cell

/-- The cell is reached from the values in one way or the other. -/
def Reaches (heap : Heap) (roots : List Value) (cell : Cell) : Prop :=
  heap.ReachesStruct roots cell ∨ heap.ReachesScope roots cell

/-- Every cell that is named in a table is allocated. -/
def Closed (heap : Heap) : Prop :=
  ∀ cell, ∀ value ∈ (heap.read cell).values,
    value.Within (fun inner => inner < heap.size) (fun inner => inner < heap.size)

variable {heap : Heap} {roots : List Value}

/-- The cells of a value that is reached are reached. -/
theorem Reached.within {value : Value} (reached : heap.Reached roots value) :
    value.Within (heap.ReachesStruct roots) (heap.ReachesScope roots) := by
  cases value with
  | struct cell => exact reached
  | action block => exact fun cell captured => ⟨block, reached, captured⟩
  | _ => trivial

/-- The values in a cell that is reached are reached. -/
theorem Reaches.reached_of_mem {cell : Cell} {value : Value} (reaches : heap.Reaches roots cell)
    (member : value ∈ (heap.read cell).values) : heap.Reached roots value := by
  rcases reaches with reachesStruct | ⟨action, reached, captured⟩
  · exact .field reachesStruct member
  · exact .captured reached captured member

/-- If the cells of the roots are of some sort, and that sort is closed under reading, then all
cells reached are of the sort. -/
theorem Reached.within_of_closed (sort : Cell → Prop)
    (rootsWithin : ∀ value ∈ roots, value.Within sort sort)
    (closed : ∀ cell, sort cell → ∀ value ∈ (heap.read cell).values, value.Within sort sort)
    {value : Value} (reached : heap.Reached roots value) : value.Within sort sort := by
  induction reached with
  | root member => exact rootsWithin _ member
  | field _ member inductionHypothesis => exact closed _ inductionHypothesis _ member
  | captured _ isScope member inductionHypothesis =>
      exact closed _ (inductionHypothesis _ isScope) _ member

theorem Reaches.of_closed (sort : Cell → Prop)
    (rootsWithin : ∀ value ∈ roots, value.Within sort sort)
    (closed : ∀ cell, sort cell → ∀ value ∈ (heap.read cell).values, value.Within sort sort)
    {cell : Cell} (reaches : heap.Reaches roots cell) : sort cell := by
  rcases reaches with reachesStruct | ⟨action, reached, captured⟩
  · exact Reached.within_of_closed sort rootsWithin closed reachesStruct
  · exact Reached.within_of_closed sort rootsWithin closed reached cell captured

/-! ## Heaps without dangling cells -/

theorem closed_of_tables
    (within : ∀ table ∈ heap.tables.toList, ∀ value ∈ table.values,
      value.Within (fun inner => inner < heap.size) (fun inner => inner < heap.size)) :
    heap.Closed :=
  read_induction
    (motive := fun table => ∀ value ∈ table.values,
      value.Within (fun inner => inner < heap.size) (fun inner => inner < heap.size))
    (fun _ member => absurd member List.not_mem_nil) within

theorem Closed.alloc (closed : heap.Closed) {table : Table Value}
    (within : ∀ value ∈ table.values,
      value.Within (fun inner => inner < heap.size) (fun inner => inner < heap.size)) :
    (heap.alloc table).2.Closed := by
  intro cell value member
  have old : value.Within (fun inner => inner < heap.size) (fun inner => inner < heap.size) := by
    by_cases isNew : cell = heap.size
    · rw [isNew, read_alloc_self] at member
      exact within value member
    · rw [read_alloc_of_ne _ _ isNew] at member
      exact closed cell value member
  rw [size_alloc]
  exact old.mono (fun _ => Nat.lt_succ_of_lt) (fun _ => Nat.lt_succ_of_lt)

theorem Closed.insert (closed : heap.Closed) {cell : Cell} (key : String) {value : Value}
    (within : value.Within (fun inner => inner < heap.size) (fun inner => inner < heap.size)) :
    (heap.insert cell key value).Closed := by
  intro other held member
  rw [size_insert]
  rcases mem_read_insert member with ⟨_, rfl⟩ | old
  · exact within
  · exact closed other held old

/-- From no values nothing is reached. -/
theorem not_reaches_nil (heap : Heap) (cell : Cell) : ¬ heap.Reaches [] cell :=
  Reaches.of_closed (fun _ => False) (fun _ member => absurd member List.not_mem_nil)
    (fun _ impossible => impossible.elim)

end Heap

end Tabula
