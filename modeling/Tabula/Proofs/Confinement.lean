import Tabula.Proofs.Discipline.Rules
import Tabula.Proofs.Reachability

/-!
# Writes are confined to what was handed over

A block runs in a new cell that holds a copy of its bindings, and a program runs in a copy of its
initial scope. So of the cells that existed before, a run can write only those that it can reach as
structs from what it was handed. The tables that were copied, and the scopes of captured actions,
are read but never written, unless they are reached as structs too.
-/

namespace Tabula

open Heap

/-- The cells that a run may write which was handed some values: the structs reached from them, and
those allocated since. -/
def Heap.Lends (before : Heap) (roots : List Value) (size : Nat) (cell : Cell) : Prop :=
  before.ReachesStruct roots cell ∨ before.size ≤ cell ∧ cell < size

/-- The cells that it may read: the captured scopes reached as well. -/
def Heap.Shows (before : Heap) (roots : List Value) (size : Nat) (cell : Cell) : Prop :=
  before.Reaches roots cell ∨ before.size ≤ cell ∧ cell < size

namespace Heap

variable {before : Heap} {roots : List Value} {size larger : Nat} {cell : Cell}

theorem Lends.mono (grown : size ≤ larger) (lends : before.Lends roots size cell) :
    before.Lends roots larger cell :=
  lends.imp_right fun new => ⟨new.1, Nat.lt_of_lt_of_le new.2 grown⟩

theorem Shows.mono (grown : size ≤ larger) (shows : before.Shows roots size cell) :
    before.Shows roots larger cell :=
  shows.imp_right fun new => ⟨new.1, Nat.lt_of_lt_of_le new.2 grown⟩

theorem Lends.shows (lends : before.Lends roots size cell) : before.Shows roots size cell :=
  lends.imp_left Or.inl

theorem Reached.within_lends {value : Value} (reached : before.Reached roots value) :
    value.Within (before.Lends roots size) (before.Shows roots size) :=
  reached.within.mono (fun _ => Or.inl) (fun _ reachesScope => Or.inl (Or.inr reachesScope))

end Heap

/-- A run that was handed some values writes only what they lend it, and all that it can read holds
only what they show it. -/
def Discipline.confinement (before : Heap) (roots : List Value) : Discipline where
  writable := before.Lends roots
  readable := before.Shows roots
  shape _ := True
  kept state :=
    before.size ≤ state.heap.size ∧
      (∀ cell < before.size, ¬ before.ReachesStruct roots cell →
        state.heap.read cell = before.read cell) ∧
      ∀ cell, before.Reaches roots cell ∨ before.size ≤ cell →
        ∀ value ∈ (state.heap.read cell).values,
          value.Within (before.Lends roots state.heap.size) (before.Shows roots state.heap.size)
  writable_mono := Lends.mono
  readable_mono := Shows.mono
  readable_of_writable := Lends.shows
  shape_nil := trivial
  shape_insert _ _ _ := trivial
  read kept readable := ⟨trivial, kept.2.2 _ (readable.imp_right And.left)⟩
  alloc := by
    rintro state table ⟨grown, frame, closed⟩ _ within
    have larger : state.heap.size ≤ (state.heap.alloc table).2.size := by
      rw [size_alloc]
      exact Nat.le_succ _
    refine ⟨Nat.le_trans grown larger, ?_, ?_⟩
    · intro cell old unreached
      have notNew : cell ≠ state.heap.size := Nat.ne_of_lt (Nat.lt_of_lt_of_le old grown)
      rw [read_alloc_of_ne _ _ notNew]
      exact frame cell old unreached
    · intro cell readable value member
      have was :
          value.Within (before.Lends roots state.heap.size)
            (before.Shows roots state.heap.size) := by
        by_cases isNew : cell = state.heap.size
        · rw [isNew, read_alloc_self] at member
          exact within value member
        · rw [read_alloc_of_ne _ _ isNew] at member
          exact closed cell readable value member
      exact was.mono (fun _ => Lends.mono larger) (fun _ => Shows.mono larger)
  writable_alloc kept := Or.inr ⟨kept.1, Nat.lt_succ_self _⟩
  insert := by
    rintro state written new key ⟨grown, frame, closed⟩ writable within
    have sameSize : (state.heap.insert written key new).size = state.heap.size :=
      size_insert state.heap written key new
    simp only [sameSize]
    refine ⟨grown, ?_, ?_⟩
    · intro cell old unreached
      have different : written ≠ cell := by
        rintro rfl
        rcases writable with reachesStruct | isNew
        · exact unreached reachesStruct
        · exact Nat.not_lt_of_le isNew.1 old
      rw [read_insert_of_ne _ _ _ different]
      exact frame cell old unreached
    · intro cell readable value member
      rcases mem_read_insert member with ⟨_, rfl⟩ | was
      · exact within
      · exact closed cell readable value was
  fresh kept := kept
  print _ kept := kept

/-- Before a run the discipline is kept. -/
theorem Discipline.confinement_start (state : State) (roots : List Value) :
    (Discipline.confinement state.heap roots).kept state := by
  refine ⟨Nat.le_refl _, fun _ _ _ => rfl, ?_⟩
  intro cell readable value member
  rcases readable with reaches | beyond
  · exact (reaches.reached_of_mem member).within_lends
  · rw [read_of_size_le _ beyond] at member
    exact absurd member List.not_mem_nil

theorem Discipline.confinement_admits (state : State) (bindings : Table Value) :
    (Discipline.confinement state.heap bindings.values).AdmitsTable state.heap.size bindings :=
  ⟨trivial, fun _ member => (Reached.root member).within_lends⟩

namespace Rule

/-- A program runs as a block that starts with the bindings of the initial scope. -/
theorem from?_program (eval : Evaluator) (statements : Program) (initial : Cell) (state : State) :
    (program eval statements initial).from? state =
      (block eval statements (state.heap.read initial)).from? state := by
  rw [program, Run.from?_bind, Run.from?_read]

/-- A block changes no old cell that is not a struct reached from its bindings. -/
theorem read_block_of_unreached (interpreter : Interpreter) {depth : Nat} {body : List Node}
    {bindings : Table Value} {state after : State} {outcome : Except Error Cell}
    (ran : (block (interpreter.evaluate depth) body bindings).from? state =
      some (outcome, after))
    {cell : Cell} (old : cell < state.heap.size)
    (unreached : ¬ state.heap.ReachesStruct bindings.values cell) :
    after.heap.read cell = state.heap.read cell := by
  have governs :
      (Discipline.confinement state.heap bindings.values).Governs (interpreter.evaluate depth) :=
    Discipline.governs_evaluate interpreter depth
  have ended :=
    Discipline.block_keeps governs body (Discipline.confinement_admits state bindings)
      (Discipline.confinement_start state bindings.values) outcome after ran
  exact ended.kept.2.1 cell old unreached

end Rule

/-- Whether it succeeds or fails, a block changes no cell that existed before it but structs reached
from its bindings, and a program changes none but structs reached from the initial bindings. The
initial scope is no exception. -/
theorem writes_confined_to_reachable (interpreter : Interpreter) (state after : State)
    (outcome : Except Error Cell) :
    (∀ (depth : Nat) (body : List Node) (bindings : Table Value),
      (Rule.block (interpreter.evaluate depth) body bindings).from? state =
          some (outcome, after) →
        ∀ cell < state.heap.size, ¬ state.heap.ReachesStruct bindings.values cell →
          after.heap.read cell = state.heap.read cell) ∧
      ∀ (program : Program) (initial : Cell),
        (interpreter.execute program initial).from? state = some (outcome, after) →
          ∀ cell < state.heap.size,
            ¬ state.heap.ReachesStruct (state.heap.read initial).values cell →
              after.heap.read cell = state.heap.read cell := by
  constructor
  · intro depth body bindings ran cell old unreached
    exact Rule.read_block_of_unreached interpreter ran old unreached
  · intro program initial ran cell old unreached
    rw [Interpreter.execute, Rule.from?_program] at ran
    exact Rule.read_block_of_unreached interpreter ran old unreached

/-- A scope that holds one empty struct. -/
private def oneStruct : State := { heap := ⟨#[[("s", .struct 1)], []]⟩ }

/-- Writes below the struct, binds a name, and fails in an action. -/
private def nestedWrite : Program :=
  [ .expression (.operator "<-")
      (.expression (.operator ":") (.atom "s") (.atom "a")) (.constant (.bool true)),
    .expression (.operator "<") (.atom "x") (.constant (.bool true)),
    .expression (.operator "!")
      (.action ⟨0, []⟩ [.expression (.operator "+") (.atom "x") (.atom "x")]) (.atom "none") ]

private theorem oneStruct_unreached :
    ¬ oneStruct.heap.ReachesStruct (oneStruct.heap.read 0).values 0 := by
  intro reaches
  have isStruct : (0 : Cell) = 1 := by
    refine Reaches.of_closed (fun cell => cell = 1) ?_ ?_ (Or.inl reaches)
    · intro value member
      rw [List.mem_singleton.mp member]
      rfl
    · rintro cell rfl value member
      exact absurd member List.not_mem_nil
  exact absurd isStruct (by decide)

theorem failed_run_keeps_initial_scope :
    ∃ error after,
      (({} : Interpreter).execute nestedWrite 0).from? oneStruct = some (.error error, after) ∧
        ¬ oneStruct.heap.ReachesStruct (oneStruct.heap.read 0).values 0 ∧
        after.heap.read 1 ≠ oneStruct.heap.read 1 ∧
        after.heap.read 0 = oneStruct.heap.read 0 := by
  refine ⟨_, _, rfl, oneStruct_unreached, ?_, ?_⟩
  · intro same
    exact absurd (congrArg List.length same) (by decide)
  · exact (writes_confined_to_reachable {} oneStruct _ _).2 nestedWrite 0 rfl 0 (by decide)
      oneStruct_unreached

end Tabula
