import Tabula.Evaluation

/-!
# How operands, statements and loops end

Operands that belong together are all evaluated, in order, each from the state that the one before
it left. So what a rule sees of them is told by how each of them ends, and a failure of the whole is
the failure of one of them, in the state in which it was evaluated. Statements and the runs of a
loop follow one another up to the first failure.
-/

namespace Tabula

/-- The table that an action was captured with, as it stands; empty if it was not captured. -/
def Heap.captured (heap : Heap) (action : Action) : Table Value :=
  match action.scope with
  | some cell => heap.read cell
  | none => []

/-- The state in which a block starts: a new cell holds its bindings. -/
def State.entering (state : State) (bindings : Table Value) : State :=
  { state with heap := (state.heap.alloc bindings).2 }

theorem Run.from?_bind_ok {α β : Type} {run : Run α} {next : α → Run β} {state between : State}
    {value : α} (ran : run.from? state = some (.ok value, between)) :
    (run >>= next).from? state = (next value).from? between := by
  rw [Run.from?_bind, ran]

/-- How two operands end that are evaluated one after the other, the second one also if the first
one failed. -/
structure InTurn where
  first : Except Error Value
  second : Except Error Value
  after : State

def Run.inTurn (first second : Run Value) (state : State) : Option InTurn := do
  let (outcome, between) ← first.from? state
  let (outcome', after) ← second.from? between
  return ⟨outcome, outcome', after⟩

theorem Run.inTurn_eq_some_iff {first second : Run Value} {state : State} {ended : InTurn} :
    Run.inTurn first second state = some ended ↔
      ∃ between, first.from? state = some (ended.first, between) ∧
        second.from? between = some (ended.second, ended.after) := by
  obtain ⟨outcome, outcome', after⟩ := ended
  constructor
  · intro inTurn
    obtain ⟨⟨found, between⟩, ran, rest⟩ := Option.bind_eq_some_iff.mp inTurn
    obtain ⟨⟨found', reached⟩, ran', same⟩ := Option.bind_eq_some_iff.mp rest
    cases same
    exact ⟨between, ran, ran'⟩
  · rintro ⟨between, ran, ran'⟩
    rw [inTurn, ran]
    change (second.from? between >>= fun _ => _) = _
    rw [ran']
    rfl

namespace Rule

/-- A rule sees both operands in turn, the left one first. -/
theorem from?_both (eval : Evaluator) (scope : Cell) (left right : Node) (state : State) :
    (both eval scope left right).from? state =
      (Run.inTurn (eval scope left) (eval scope right) state).map fun ended =>
        (do return (← ended.first, ← ended.second), ended.after) := by
  rw [both, Run.from?_bind, Run.from?_attempt, Run.inTurn]
  cases (eval scope left).from? state with
  | none => rfl
  | some ended =>
      obtain ⟨outcome, between⟩ := ended
      simp only [Option.map_some, Run.from?_bind, Run.from?_attempt, Option.bind_eq_bind,
        Option.bind_some]
      cases (eval scope right).from? between with
      | none => rfl
      | some ended' =>
          obtain ⟨outcome', after⟩ := ended'
          cases outcome <;> cases outcome' <;> rfl

variable {eval : Evaluator} {scope : Cell} {left right : Node} {state after : State}

theorem both_succeeded {values : Value × Value}
    (ran : (both eval scope left right).from? state = some (.ok values, after)) :
    ∃ between, (eval scope left).from? state = some (.ok values.1, between) ∧
      (eval scope right).from? between = some (.ok values.2, after) := by
  rw [from?_both, Option.map_eq_some_iff] at ran
  obtain ⟨⟨outcome, outcome', reached⟩, inTurn, same⟩ := ran
  obtain ⟨between, first, second⟩ := Run.inTurn_eq_some_iff.mp inTurn
  cases outcome with
  | error error => cases same
  | ok value =>
      cases outcome' with
      | error error => cases same
      | ok value' =>
          cases same
          exact ⟨between, first, second⟩

theorem from?_both_of_ok {first second : Value} {between : State}
    (firstRan : (eval scope left).from? state = some (.ok first, between))
    (secondRan : (eval scope right).from? between = some (.ok second, after)) :
    (both eval scope left right).from? state = some (.ok (first, second), after) := by
  have inTurn : Run.inTurn (eval scope left) (eval scope right) state =
      some ⟨.ok first, .ok second, after⟩ :=
    Run.inTurn_eq_some_iff.mpr ⟨between, firstRan, secondRan⟩
  rw [from?_both, inTurn]
  rfl

theorem both_failed {error : Error}
    (ran : (both eval scope left right).from? state = some (.error error, after)) :
    (∃ between, (eval scope left).from? state = some (.error error, between)) ∨
      ∃ outcome between, (eval scope left).from? state = some (outcome, between) ∧
        (eval scope right).from? between = some (.error error, after) := by
  rw [from?_both, Option.map_eq_some_iff] at ran
  obtain ⟨⟨outcome, outcome', reached⟩, inTurn, same⟩ := ran
  obtain ⟨between, first, second⟩ := Run.inTurn_eq_some_iff.mp inTurn
  cases outcome with
  | error error' =>
      cases same
      exact Or.inl ⟨between, first⟩
  | ok value =>
      cases outcome' with
      | error error' =>
          cases same
          exact Or.inr ⟨.ok value, between, first, second⟩
      | ok value' => cases same

/-! ## Lists of operands -/

section ForAll

variable {α β : Type} {step : α → Run β}

theorem mapM_ofExcept_failed {outcomes : List (Except Error β)} {error : Error}
    (ran : (outcomes.mapM Run.ofExcept).from? state = some (.error error, after)) :
    .error error ∈ outcomes := by
  induction outcomes generalizing state with
  | nil => exact nomatch ran
  | cons outcome rest inductionHypothesis =>
      rw [List.mapM_cons] at ran
      rcases Run.bind_ended ran with ⟨error', failed, same⟩ | ⟨value, between, _, others⟩
      · cases same
        rw [Run.from?_ofExcept] at failed
        cases failed
        exact List.mem_cons_self
      · rcases Run.bind_ended others with ⟨error', failed, same⟩ | ⟨values, last, _, done⟩
        · cases same
          exact List.mem_cons_of_mem outcome (inductionHypothesis failed)
        · exact nomatch done

/-- The step for an item fails, after attempts of those before it. -/
def FailsAt (step : α → Run β) (items : List α) (state : State) (error : Error) : Prop :=
  ∃ before item rest outcomes between after, items = before ++ item :: rest ∧
    (before.mapM fun item => Run.attempt (step item)).from? state = some (.ok outcomes, between) ∧
    (step item).from? between = some (.error error, after)

theorem attempt_ended {run : Run β} {ended : Except Error (Except Error β)}
    (ran : (Run.attempt run).from? state = some (ended, after)) :
    ∃ outcome, ended = .ok outcome ∧ run.from? state = some (outcome, after) := by
  rw [Run.from?_attempt, Option.map_eq_some_iff] at ran
  obtain ⟨⟨outcome, reached⟩, ran, same⟩ := ran
  cases same
  exact ⟨outcome, rfl, ran⟩

/-- Attempts never fail, and an error among their outcomes is that of one item. -/
theorem mapM_attempt_ended {items : List α}
    {ended : Except Error (List (Except Error β))}
    (ran : (items.mapM fun item => Run.attempt (step item)).from? state = some (ended, after)) :
    ∃ outcomes, ended = .ok outcomes ∧
      ∀ error, .error error ∈ outcomes → FailsAt step items state error := by
  induction items generalizing state ended with
  | nil =>
      cases ran
      exact ⟨[], rfl, fun error member => absurd member List.not_mem_nil⟩
  | cons item rest inductionHypothesis =>
      rw [List.mapM_cons] at ran
      rcases Run.bind_ended ran with ⟨error, failed, _⟩ | ⟨outcome, between, attempted, others⟩
      · obtain ⟨outcome, same, _⟩ := attempt_ended failed
        cases same
      · obtain ⟨_, same, stepped⟩ := attempt_ended attempted
        cases same
        rcases Run.bind_ended others with ⟨error, failed, _⟩ | ⟨outcomes, last, ranRest, done⟩
        · obtain ⟨outcomes, same, _⟩ := inductionHypothesis failed
          cases same
        · cases done
          obtain ⟨_, same, found⟩ := inductionHypothesis ranRest
          cases same
          refine ⟨outcome :: outcomes, rfl, fun error member => ?_⟩
          -- a later item fails after the attempt of this one too, whatever came of it
          rcases List.mem_cons.mp member with isFirst | later
          · cases isFirst
            exact ⟨[], item, rest, [], state, between, rfl, rfl, stepped⟩
          · obtain ⟨before, failing, after, others, middle, final, split, ranBefore, failed⟩ :=
              found error later
            refine ⟨item :: before, failing, after, outcome :: others, middle, final, ?_, ?_,
              failed⟩
            · rw [split, List.cons_append]
            · rw [List.mapM_cons, Run.from?_bind_ok attempted, Run.from?_bind_ok ranBefore]
              rfl

theorem forAll_failed {items : List α} {error : Error}
    (ran : (forAll step items).from? state = some (.error error, after)) :
    FailsAt step items state error := by
  rcases Run.bind_ended ran with ⟨error', failed, _⟩ | ⟨outcomes, between, attempted, collected⟩
  · obtain ⟨outcomes, same, _⟩ := mapM_attempt_ended failed
    cases same
  · obtain ⟨outcomes', same, found⟩ := mapM_attempt_ended attempted
    cases same
    exact found error (mapM_ofExcept_failed collected)

end ForAll

/-! ## Statements -/

theorem statements_cons (eval : Evaluator) (scope : Cell) (node : Node) (rest : List Node) :
    statements eval scope (node :: rest) =
      eval scope node >>= fun _ => statements eval scope rest := by
  change ((fun _ => ()) <$> eval scope node >>= fun _ => statements eval scope rest) = _
  rw [bind_map_left]

theorem statements_failed {body : List Node} {error : Error}
    (failed : (statements eval scope body).from? state = some (.error error, after)) :
    ∃ before statement rest between, body = before ++ statement :: rest ∧
      (statements eval scope before).from? state = some (.ok (), between) ∧
      (eval scope statement).from? between = some (.error error, after) := by
  induction body generalizing state with
  | nil => exact nomatch failed
  | cons node rest inductionHypothesis =>
      rw [statements_cons] at failed
      rcases Run.bind_ended failed with ⟨error', failed, same⟩ | ⟨value, between, ran, others⟩
      · cases same
        exact ⟨[], node, rest, state, rfl, rfl, failed⟩
      · obtain ⟨before, statement, later, middle, split, ranBefore, failed⟩ :=
          inductionHypothesis others
        refine ⟨node :: before, statement, later, middle, ?_, ?_, failed⟩
        · rw [split, List.cons_append]
        · rw [statements_cons, Run.from?_bind_ok ran, ranBefore]

/-! ## Blocks and loops -/

theorem from?_captured (action : Action) (state : State) :
    (captured action).from? state = some (.ok (state.heap.captured action), state) := by
  rw [captured, Heap.captured]
  cases action.scope <;> rfl

/-- A block runs its statements in a new cell that holds its bindings. -/
theorem from?_block_bind {α : Type} (eval : Evaluator) (body : List Node)
    (bindings : Table Value) (next : Cell → Run α) (state : State) :
    (block eval body bindings >>= next).from? state =
      (statements eval state.heap.size body >>= fun _ => next state.heap.size).from?
        (state.entering bindings) := by
  have unfolded : block eval body bindings =
      Run.alloc bindings >>= fun cell => statements eval cell body >>= fun _ => pure cell := rfl
  rw [unfolded, bind_assoc, Run.from?_bind_ok (Run.from?_alloc bindings state), bind_assoc]
  simp only [pure_bind, State.entering]

theorem loopFrom_append (eval : Evaluator) (action : Action) (position : Nat)
    (earlier later : List Value) :
    loopFrom eval action position (earlier ++ later) =
      loopFrom eval action position earlier >>= fun _ =>
        loopFrom eval action (position + earlier.length) later := by
  induction earlier generalizing position with
  | nil => rfl
  | cons element rest inductionHypothesis =>
      have samePosition : position + 1 + rest.length = position + (rest.length + 1) := by omega
      rw [List.cons_append, loopFrom, loopFrom, inductionHypothesis, List.length_cons,
        samePosition]
      simp only [bind_assoc]

end Rule

end Tabula
