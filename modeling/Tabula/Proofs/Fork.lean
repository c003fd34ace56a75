import Tabula.Proofs.Correspondence.Rules
import Tabula.Proofs.Discipline.Rules
import Tabula.Proofs.Reachability

/-!
# A run can be split

Running one program after another is the same as running the two as one, although the second
program then runs in a copy of the scope that the first one left. The two runs keep their scopes in
different cells: a run of the whole goes on in the scope itself, and a run of the rest in a copy of
it, which is the next cell.

If the scope can be reached from its own bindings, then the difference shows: what is written to the
scope through such a binding is a binding in the one run and not in the other. If it cannot, then
the scope corresponds to its copy, every cell reached from the bindings to itself, and every cell
allocated from then on to the one after it.
-/

namespace Tabula

/-- The names of a scope with the texts of what they are bound to, in order. -/
def Heap.listing (heap : Heap) (scope : Cell) : List (String × String) :=
  (heap.read scope).map fun entry => (entry.1, heap.describe entry.2)

/-! ## What every run keeps -/

/-- A run holds allocated cells only, keeps the heap closed, and adds to what was printed. -/
def Discipline.allocated (printed : String) : Discipline where
  writable size cell := cell < size
  readable size cell := cell < size
  shape _ := True
  kept state := state.heap.Closed ∧ ∃ text, state.printed = printed ++ text
  writable_mono grown below := Nat.lt_of_lt_of_le below grown
  readable_mono grown below := Nat.lt_of_lt_of_le below grown
  readable_of_writable below := below
  shape_nil := trivial
  shape_insert _ _ _ := trivial
  read kept _ := ⟨trivial, kept.1 _⟩
  alloc kept _ within := ⟨kept.1.alloc within, kept.2⟩
  writable_alloc _ := Nat.lt_succ_self _
  insert key kept _ within := ⟨kept.1.insert key within, kept.2⟩
  fresh kept := kept
  print := by
    rintro state line ⟨closed, text, isPrinted⟩
    refine ⟨closed, text ++ line ++ "\n", ?_⟩
    simp only [isPrinted, String.append_assoc]

/-- A program ends in an allocated scope of a closed heap, and adds to what was printed. -/
theorem Interpreter.execute_allocated (interpreter : Interpreter) {program : Program}
    {initial scope : Cell} {state after : State} (closed : state.heap.Closed)
    (present : initial < state.heap.size)
    (ran : (interpreter.execute program initial).from? state = some (.ok scope, after)) :
    scope < after.heap.size ∧ after.heap.Closed ∧
      ∃ text, after.printed = state.printed ++ text := by
  have start : (Discipline.allocated state.printed).kept state :=
    ⟨closed, "", (String.append_empty).symm⟩
  have ended := Discipline.execute_keeps interpreter program present start _ _ ran
  exact ⟨ended.value scope rfl, ended.kept⟩

/-! ## A scope and its copy -/

namespace Heap

/-- The cells of a run that goes on in a scope, and of a run that goes on in a copy of it. -/
def Forked (heap : Heap) (scope cell other : Nat) : Prop :=
  cell = scope ∧ other = heap.size ∨
    (cell = other ∧ cell ≠ scope ∧ cell < heap.size ∧
      heap.Reaches (heap.read scope).values cell) ∨
    ∃ offset, cell = heap.size + offset ∧ other = heap.size + 1 + offset

theorem biUnique_forked {heap : Heap} {scope : Nat} (present : scope < heap.size) :
    Relator.BiUnique (heap.Forked scope) := by
  constructor
  · intro cell cell' other first second
    rcases first with ⟨isScope, isCopy⟩ | ⟨same, _, old, _⟩ | ⟨offset, isNew, isNext⟩ <;>
      rcases second with ⟨isScope', isCopy'⟩ | ⟨same', _, old', _⟩ | ⟨offset', isNew', isNext'⟩ <;>
      omega
  · intro cell other other' first second
    rcases first with ⟨isScope, isCopy⟩ | ⟨same, notScope, old, _⟩ | ⟨offset, isNew, isNext⟩ <;>
      rcases second with
        ⟨isScope', isCopy'⟩ | ⟨same', notScope', old', _⟩ | ⟨offset', isNew', isNext'⟩ <;>
      omega

end Heap

namespace Correspondence

/-- A run that goes on in a scope, and a run that goes on in a copy of it. -/
def fork (heap : Heap) (scope : Cell) (printed : String) (present : scope < heap.size) :
    Correspondence where
  cells := heap.Forked scope
  serials := Eq
  leftText := printed
  rightText := printed
  biUnique_cells := Heap.biUnique_forked present
  biUnique_serials := biUnique_eq

variable {heap : Heap} {scope : Cell} {printed : String} {present : scope < heap.size}

/-- A cell reached from the bindings is the same in both runs. -/
private theorem fork_cells_self (closed : heap.Closed)
    (unreached : ¬ heap.Reaches (heap.read scope).values scope) {cell : Cell}
    (reaches : heap.Reaches (heap.read scope).values cell) :
    (fork heap scope printed present).cells cell cell := by
  have old : cell < heap.size :=
    Heap.Reaches.of_closed (fun cell => cell < heap.size) (closed scope)
      (fun inner _ => closed inner) reaches
  have notScope : cell ≠ scope := by
    rintro rfl
    exact unreached reaches
  exact Or.inr (Or.inl ⟨rfl, notScope, old, reaches⟩)

/-- A table whose values are all reached from the bindings is the same in both runs. -/
private theorem fork_tables_self (closed : heap.Closed)
    (unreached : ¬ heap.Reaches (heap.read scope).values scope) {table : Table Value}
    (reached : ∀ value ∈ table.values, heap.Reached (heap.read scope).values value) :
    (fork heap scope printed present).Tables table table := by
  apply Tables.self (fun _ => rfl) rfl
  intro value member
  exact (reached value member).within.mono
    (fun _ reachesStruct => fork_cells_self closed unreached (Or.inl reachesStruct))
    (fun _ reachesScope => fork_cells_self closed unreached (Or.inr reachesScope))

/-- Once a scope is copied, the run that goes on in it and the run that goes on in the copy are in
states that correspond. -/
theorem fork_states {state : State} (present : scope < state.heap.size)
    (closed : state.heap.Closed)
    (unreached : ¬ state.heap.Reaches (state.heap.read scope).values scope) :
    (fork state.heap scope state.printed present).States state
      { state with heap := (state.heap.alloc (state.heap.read scope)).2 } := by
  refine ⟨⟨?_, ?_⟩, fun _ => rfl, "", ?_⟩
  · rintro cell other (⟨rfl, rfl⟩ | ⟨rfl, _, old, reaches⟩ | ⟨offset, rfl, rfl⟩)
    · rw [Heap.read_alloc_self]
      exact fork_tables_self closed unreached fun value member => .root member
    · rw [Heap.read_alloc_of_ne _ _ (Nat.ne_of_lt old)]
      exact fork_tables_self closed unreached fun value member => reaches.reached_of_mem member
    · rw [Heap.read_of_size_le, Heap.read_of_size_le]
      · exact .nil
      · rw [Heap.size_alloc]
        exact Nat.le_add_right _ offset
      · exact Nat.le_add_right _ offset
  · intro offset
    rw [Heap.size_alloc]
    exact Or.inr (Or.inr ⟨offset, rfl, rfl⟩)
  · exact ⟨(String.append_empty).symm, (String.append_empty).symm⟩

/-- Scopes that correspond list the same texts under the same names. -/
theorem Heaps.listing {correspondence : Correspondence} {left right : Heap}
    (heaps : correspondence.Heaps left right) {cell other : Cell}
    (cells : correspondence.cells cell other) : left.listing cell = right.listing other := by
  have tables := heaps.tables cells
  rw [Heap.listing, Heap.listing]
  generalize left.read cell = table at tables ⊢
  generalize right.read other = table' at tables ⊢
  induction tables with
  | nil => rfl
  | cons same _ inductionHypothesis =>
      rw [List.map_cons, List.map_cons, same.1, heaps.describe same.2, inductionHypothesis]

end Correspondence

/-! ## Running the parts -/

namespace Interpreter

variable (interpreter : Interpreter)

/-- A program of two parts runs the second part in the scope that the first one leaves. -/
theorem execute_append (first second : Program) (initial : Cell) :
    interpreter.execute (first ++ second) initial = do
      let scope ← interpreter.execute first initial
      Rule.statements (interpreter.evaluate interpreter.depth) scope second
      return scope := by
  have parts : ∀ scope : Cell,
      Rule.statements (interpreter.evaluate interpreter.depth) scope (first ++ second) =
        Rule.statements (interpreter.evaluate interpreter.depth) scope first >>= fun _ =>
          Rule.statements (interpreter.evaluate interpreter.depth) scope second := by
    intro scope
    exact List.forM_append
  simp only [execute, Rule.program, Rule.block, parts, bind_assoc, pure_bind]

/-- What a program does that runs in a copy of a scope. -/
theorem from?_execute (program : Program) (scope : Cell) (state : State) :
    (interpreter.execute program scope).from? state =
      (do
        Rule.statements (interpreter.evaluate interpreter.depth) state.heap.size program
        return state.heap.size : Run Cell).from?
        { state with heap := (state.heap.alloc (state.heap.read scope)).2 } := by
  rfl

end Interpreter

/-- A run of the whole and a run of the rest after a first part fail with one error, or end in
scopes that list the same; and the whole prints what the first part prints and then what the rest
prints. -/
structure EndsAlike (state middle : State) (whole rest : Except Error Cell × State) : Prop where
  outcomes : Correspondence.Outcomes
    (fun scope other => whole.2.heap.listing scope = rest.2.heap.listing other) whole.1 rest.1
  printed : ∃ first second, middle.printed = state.printed ++ first ∧
    rest.2.printed = middle.printed ++ second ∧ whole.2.printed = state.printed ++ (first ++ second)

/-- A way to run programs that may be split: the rest of a program may be run in a copy of the scope
that the first part leaves. -/
structure Splits (launch : Program → Cell → Run Cell) (state : State) (initial : Cell)
    (first second : Program) : Prop where
  /-- If the first part fails, then the whole ends there and then. -/
  failed : ∀ {error : Error} {after : State},
    (launch first initial).from? state = some (.error error, after) →
    (launch (first ++ second) initial).from? state = some (.error error, after)
  /-- If the first part leaves a scope that is not reached from its own bindings, then either both
  do not finish, or both end alike. -/
  succeeded : ∀ {scope : Cell} {middle : State},
    (launch first initial).from? state = some (.ok scope, middle) →
    ¬ middle.heap.Reaches (middle.heap.read scope).values scope →
    Option.Rel (EndsAlike state middle) ((launch (first ++ second) initial).from? state)
      ((launch second scope).from? middle)

/-- Going on in a scope and running the rest in a copy of it end in states that correspond. -/
private theorem rest_agrees (interpreter : Interpreter) (rest : Program) {scope : Cell}
    {middle : State} (present : scope < middle.heap.size) (closed : middle.heap.Closed)
    (unreached : ¬ middle.heap.Reaches (middle.heap.read scope).values scope) :
    Option.Rel
      (fun ended other =>
        Correspondence.Outcomes (middle.heap.Forked scope) ended.1 other.1 ∧
          (Correspondence.fork middle.heap scope middle.printed present).States ended.2 other.2)
      ((do
        Rule.statements (interpreter.evaluate interpreter.depth) scope rest
        return scope : Run Cell).from? middle)
      ((interpreter.execute rest scope).from? middle) := by
  let fork := Correspondence.fork middle.heap scope middle.printed present
  have scopes : fork.cells scope middle.heap.size := Or.inl ⟨rfl, rfl⟩
  have loadsAlike : fork.LoadsAlike interpreter.loader :=
    Correspondence.loadsAlike_of_same rfl fun same => same
  have respects : fork.Respects (interpreter.evaluate interpreter.depth) :=
    Correspondence.respects_evaluate interpreter loadsAlike interpreter.depth
  have statements := Correspondence.statements_agrees respects scopes rest
  rw [Correspondence.twin_eq_id rfl, List.map_id] at statements
  have agree : fork.Agree fork.cells
      (do
        Rule.statements (interpreter.evaluate interpreter.depth) scope rest
        return scope)
      (do
        Rule.statements (interpreter.evaluate interpreter.depth) middle.heap.size rest
        return middle.heap.size) :=
    statements.bind fun _ => Correspondence.Agree.pure scopes
  rw [interpreter.from?_execute]
  exact agree (Correspondence.fork_states present closed unreached)

theorem Interpreter.execute_splits (interpreter : Interpreter) (first second : Program)
    {state : State} {initial : Cell} (closed : state.heap.Closed)
    (present : initial < state.heap.size) :
    Splits interpreter.execute state initial first second := by
  constructor
  · intro error after ran
    rw [interpreter.execute_append, Run.from?_bind, ran]
  · intro scope middle ran unreached
    obtain ⟨presentScope, closedMiddle, firstText, isMiddle⟩ :=
      interpreter.execute_allocated closed present ran
    have ends := rest_agrees interpreter second presentScope closedMiddle unreached
    rw [interpreter.execute_append, Run.from?_bind, ran]
    dsimp only
    generalize Run.from? _ middle = whole at ends ⊢
    generalize (interpreter.execute second scope).from? middle = rest at ends ⊢
    cases ends with
    | none => exact .none
    | @some ended other agree =>
        obtain ⟨outcomes, states⟩ := agree
        obtain ⟨secondText, isWhole, isRest⟩ := states.printed
        apply Option.Rel.some
        constructor
        · generalize ended.1 = outcome at outcomes ⊢
          generalize other.1 = outcome' at outcomes ⊢
          cases outcomes with
          | value cells => exact .value (states.heaps.listing cells)
          | error error => exact .error error
        · refine ⟨firstText, secondText, isMiddle, isRest, ?_⟩
          rw [isWhole, ← String.append_assoc, ← isMiddle]
          rfl

/-- Rendering the errors of runs that may be split leaves runs that may be split. -/
theorem Splits.rendered {launch : Program → Cell → Run Cell} {state : State} {initial : Cell}
    {first second : Program} (splits : Splits launch state initial first second) :
    Splits (fun program scope => Run.rendered (launch program scope)) state initial first
      second := by
  constructor
  · intro error after ran
    rw [Run.from?_rendered, Option.map_eq_some_iff] at ran
    obtain ⟨⟨outcome, ended⟩, ranFirst, isError⟩ := ran
    cases outcome with
    | ok scope => cases isError
    | error unrendered =>
        cases isError
        rw [Run.from?_rendered, splits.failed ranFirst]
        rfl
  · intro scope middle ran unreached
    rw [Run.from?_rendered, Option.map_eq_some_iff] at ran
    obtain ⟨⟨outcome, ended⟩, ranFirst, isScope⟩ := ran
    cases outcome with
    | error unrendered => cases isScope
    | ok found =>
        cases isScope
        rw [Run.from?_rendered, Run.from?_rendered]
        apply Correspondence.rel_map (splits.succeeded ranFirst unreached)
        rintro ⟨outcome, after⟩ ⟨outcome', after'⟩ ⟨outcomes, printed⟩
        refine ⟨?_, printed⟩
        cases outcomes with
        | value same => exact .value same
        | error error => exact .error error.render

/-- A run may be split after any statement, whether its errors are rendered or not: the rest runs in
a copy of the scope that the first part leaves, and the two parts together do what the whole does.
-/
theorem run_may_be_split (interpreter : Interpreter) (first second : Program) (state : State)
    (initial : Cell) (closed : state.heap.Closed) (present : initial < state.heap.size) :
    Splits interpreter.execute state initial first second ∧
      Splits interpreter.run state initial first second := by
  have executed : Splits interpreter.execute state initial first second :=
    interpreter.execute_splits first second closed present
  exact ⟨executed, executed.rendered⟩

/-- An empty scope. -/
private def freshStart : State := { heap := ⟨#[[]]⟩ }

/-- Binds a struct, and prints a field of it. -/
private def bindsStruct : Program :=
  [ .expression (.operator "<") (.atom "s") (.template [("a", .constant (.bool true))]),
    .expression (.operator "print") (.constant .void)
      (.expression (.operator ":") (.atom "s") (.atom "a")) ]

/-- Writes a field of the struct, and binds an action that is captured in the scope. -/
private def capturesScope : Program :=
  [ .expression (.operator "<-")
      (.expression (.operator ":") (.atom "s") (.atom "b")) (.constant (.bool false)),
    .expression (.operator "<") (.atom "f")
      (.expression (.operator "@") (.constant .void) (.action ⟨0, []⟩ [.atom "s"])),
    .expression (.operator "print") (.constant .void) (.atom "s") ]

theorem split_before_capture :
    ∃ scope middle,
      (({} : Interpreter).run bindsStruct 0).from? freshStart = some (.ok scope, middle) ∧
        ¬ middle.heap.Reaches (middle.heap.read scope).values scope ∧
        ((({} : Interpreter).run (bindsStruct ++ capturesScope) 0).from? freshStart).isSome ∧
        Option.Rel (EndsAlike freshStart middle)
          ((({} : Interpreter).run (bindsStruct ++ capturesScope) 0).from? freshStart)
          ((({} : Interpreter).run capturesScope scope).from? middle) := by
  have closed : freshStart.heap.Closed := by
    intro cell value member
    match cell, member with
    | 0, member => exact absurd member List.not_mem_nil
    | beyond + 1, member =>
        exact absurd (Heap.lt_size_of_mem_read member)
          (Nat.not_lt_of_le (Nat.le_add_left 1 beyond))
  let middle : State := ⟨⟨#[[], [("s", .struct 2)], [("a", .bool true)]]⟩, 0, "true\n"⟩
  have ran : (({} : Interpreter).run bindsStruct 0).from? freshStart = some (.ok 1, middle) := rfl
  have unreached : ¬ middle.heap.Reaches (middle.heap.read 1).values 1 := by
    intro reaches
    have isStruct : (1 : Cell) = 2 := by
      refine Heap.Reaches.of_closed (fun cell => cell = 2) ?_ ?_ reaches
      · intro value member
        rw [List.mem_singleton.mp member]
        rfl
      · rintro cell rfl value member
        rw [List.mem_singleton.mp member]
        trivial
    exact absurd isStruct (by decide)
  refine ⟨1, middle, ran, unreached, rfl, ?_⟩
  exact (run_may_be_split {} bindsStruct capturesScope freshStart 0 closed (by decide)).2.succeeded
    ran unreached

end Tabula
