import Tabula.Proofs.Materialization
import Tabula.Proofs.OperandOrder

/-!
# Arguments written in place and arguments in a struct

No struct is built of a template that stands as the operand of a call: an action is given the table,
and a function the values of the entries. A call by value evaluates the template like any other
operand and takes the arguments out of the struct that it gives. That is one more cell, which nobody
holds, so all cells allocated from then on have other numbers; nothing else tells the two calls
apart.

An atom among the entries of a template stands for its own name, but a function is given what the
name is bound to. So for functions no entry of the operand itself may be an atom. Templates among
the entries are evaluated in both calls, and atoms in them are names in both.
-/

namespace Tabula

/-! ## Calls by value -/

/-- No entry is an atom. Inside the entries there may be some. -/
def Node.NoAtomEntries (entries : List (String × Node)) : Prop :=
  ∀ entry ∈ entries, entry.2.kind ≠ .atom

namespace Rule

/-- The arguments of a function that a value stands for. -/
def listed : Value → Run (List Value)
  | .struct cell => return (← Run.read cell).values
  | .void => return []
  | other => return [other]

/-- Calls a value on what an operand evaluates to. -/
def callOn (eval : Evaluator) (scope : Cell) (operand : Run Value) : Value → Run Value
  | .function function => operand >>= listed >>= function.call
  | .action action => operand >>= named.ofValue >>= invoke eval scope action
  | other => Run.fail (.call other.tag)

/-- Calls the function or action on the left on what the operand on the right evaluates to. -/
def callByValue (eval : Evaluator) (scope : Cell) (left right : Node) : Run Value :=
  eval scope left >>= callOn eval scope (eval scope right)

variable {eval deeper : Evaluator} {scope : Cell}

theorem positional_of_kind {operand : Node} (noTemplate : operand.kind ≠ .template) :
    positional eval scope operand = eval scope operand >>= listed := by
  cases operand with
  | template entries => exact absurd rfl noTemplate
  | _ =>
      refine congrArg (eval scope _ >>= ·) (funext fun value => ?_)
      cases value <;> rfl

theorem named_of_kind {operand : Node} (noTemplate : operand.kind ≠ .template)
    (noAtom : operand.kind ≠ .atom) :
    named eval scope operand = eval scope operand >>= named.ofValue := by
  cases operand with
  | template entries => exact absurd rfl noTemplate
  | atom name => exact absurd rfl noAtom
  | _ => rfl

/-- Operands other than templates and atoms are always passed by value. -/
theorem call_eq_callByValue {operand : Node} (noTemplate : operand.kind ≠ .template)
    (noAtom : operand.kind ≠ .atom) (left : Node) :
    call eval scope left operand = callByValue eval scope left operand := by
  refine congrArg (eval scope left >>= ·) (funext fun callee => ?_)
  cases callee with
  | function function =>
      exact congrArg (· >>= function.call) (positional_of_kind noTemplate)
  | action action =>
      exact congrArg (· >>= invoke eval scope action) (named_of_kind noTemplate noAtom)
  | _ => rfl

theorem callOn_extends (further : eval.Extends deeper) (scope : Cell)
    {operand operandDeeper : Run Value} (operands : Run.Extends operand operandDeeper)
    (callee : Value) :
    Run.Extends (callOn eval scope operand callee) (callOn deeper scope operandDeeper callee) := by
  cases callee with
  | function function => exact (operands.bind fun _ => .refl _).bind fun _ => .refl _
  | action action =>
      exact (operands.bind fun _ => .refl _).bind (invoke_extends further scope action)
  | _ => exact .refl _

theorem tagged_callOn_extends (further : eval.Extends deeper) (scope : Cell) (callee : Node)
    {operand operandDeeper : Run Value} (operands : Run.Extends operand operandDeeper) :
    Run.Extends (Run.tagged .call (eval scope callee >>= callOn eval scope operand))
      (Run.tagged .call (deeper scope callee >>= callOn deeper scope operandDeeper)) := by
  refine Run.Extends.tagged .call ((further scope callee).bind fun value => ?_)
  exact callOn_extends further scope operands value

end Rule

namespace Interpreter

/-- Within some depth, a call by value ends with an outcome and in a state. -/
def EndsByValue (interpreter : Interpreter) (scope : Cell) (callee operand : Node) (state : State)
    (outcome : Except Error Value) (after : State) : Prop :=
  ∃ depth, (Run.tagged .call
    (Rule.callByValue (interpreter.evaluate depth) scope callee operand)).from? state =
      some (outcome, after)

end Interpreter

/-! ## The arguments -/

/-- What the operand of a call is taken for, and what it evaluates to: both fail with one error and
in one state, or the arguments are seen in a table, and the struct is a new cell that holds it. -/
inductive HandsOver {α : Type} (view : Table Value → α) :
    Except Error α × State → Except Error Value × State → Prop
  | failed (error : Error) (state : State) :
      HandsOver view (.error error, state) (.error error, state)
  | built (table : Table Value) (state : State) :
      HandsOver view (.ok (view table), state)
        (.ok (.struct state.heap.size), state.entering table)

/-- A table that is written under distinct keys lists the values as they were given. -/
theorem Table.values_ofList_zip {α : Type} {keys : List String} {values : List α}
    (distinct : keys.Nodup) (sameLength : values.length = keys.length) :
    Table.values (Table.ofList (keys.zip values)) = values := by
  have unchanged : Table.ofList (keys.zip values) = keys.zip values := by
    refine @Table.overlay_of_distinct _ [] _ ?_
    rw [List.nil_append, Table.Distinct, Table.keys,
      List.map_fst_zip (Nat.le_of_eq sameLength.symm)]
    exact distinct
  rw [unchanged]
  exact List.map_snd_zip (Nat.le_of_eq sameLength)

namespace Rule

theorem mapM_length {α β : Type} {step : α → Run β} {items : List α} {values : List β}
    {state after : State} (ran : (items.mapM step).from? state = some (.ok values, after)) :
    values.length = items.length := by
  induction items generalizing values state with
  | nil =>
      cases ran
      rfl
  | cons item rest inductionHypothesis =>
      rw [List.mapM_cons] at ran
      rcases Run.bind_ended ran with ⟨error, _, same⟩ | ⟨value, between, _, others⟩
      · cases same
      rcases Run.bind_ended others with ⟨error, _, same⟩ | ⟨values, last, ranRest, done⟩
      · cases same
      cases done
      exact congrArg (· + 1) (inductionHypothesis ranRest)

theorem forAll_length {α β : Type} {step : α → Run β} {items : List α} {values : List β}
    {state after : State} (ran : (forAll step items).from? state = some (.ok values, after)) :
    values.length = items.length := by
  rcases Run.bind_ended ran with ⟨error, _, same⟩ | ⟨outcomes, between, attempted, collected⟩
  · cases same
  exact (mapM_length collected).trans (mapM_length attempted)

theorem forAll_congr {α β : Type} {step other : α → Run β} {items : List α}
    (same : ∀ item ∈ items, step item = other item) : forAll step items = forAll other items := by
  have sameAttempts : (items.mapM fun item => Run.attempt (step item)) =
      items.mapM fun item => Run.attempt (other item) := by
    induction items with
    | nil => rfl
    | cons item rest inductionHypothesis =>
        rw [List.mapM_cons, List.mapM_cons, same item List.mem_cons_self,
          inductionHypothesis fun later member => same later (List.mem_cons_of_mem item member)]
  rw [forAll, forAll, sameAttempts]

variable {entries : List (String × Node)} {state : State}

/-- Without atoms among its entries, a function is given the values of the table of a template. -/
theorem from?_positional_template (distinct : Table.Distinct entries)
    (noAtoms : Node.NoAtomEntries entries) :
    (positional eval scope (.template entries)).from? state =
      (Table.values <$> materialize eval scope entries).from? state := by
  have sameSteps : forAll (entry eval scope) (entries.map Prod.snd) =
      forAll (eval scope) (entries.map Prod.snd) := by
    refine forAll_congr fun node member => ?_
    obtain ⟨found, foundMember, rfl⟩ := List.mem_map.mp member
    exact entry_of_kind (noAtoms found foundMember)
  rw [positional, materialize, sameSteps, map_bind, Run.from?_bind]
  cases ran : (forAll (eval scope) (entries.map Prod.snd)).from? state with
  | none => rfl
  | some ended =>
      obtain ⟨outcome, after⟩ := ended
      cases outcome with
      | error error => rfl
      | ok values =>
          have sameLength : values.length = (entries.map Prod.fst).length := by
            rw [forAll_length ran, List.length_map, List.length_map]
          have inOrder := Table.values_ofList_zip distinct sameLength
          exact congrArg (fun given => some (Except.ok given, after)) inOrder.symm

/-- A table that is built for its view is handed over like the struct that would hold it. -/
theorem handsOver_of_seen {α : Type} {view : Table Value → α} {arguments : Run α}
    {table : Run (Table Value)} (seen : arguments.from? state = (view <$> table).from? state) :
    Option.Rel (HandsOver view) (arguments.from? state)
      ((do return .struct (← Run.alloc (← table)) : Run Value).from? state) := by
  rw [seen, map_eq_pure_bind, Run.from?_bind, Run.from?_bind]
  cases table.from? state with
  | none => exact .none
  | some ended =>
      obtain ⟨outcome, after⟩ := ended
      cases outcome with
      | error error => exact .some (.failed error after)
      | ok built => exact .some (.built built after)

end Rule

namespace Interpreter

variable (interpreter : Interpreter) (depth : Nat) (scope : Cell) (entries : List (String × Node))
  (state : State)

/-- An action is given the table that the struct of the template would hold. -/
theorem named_handsOver :
    Option.Rel (HandsOver id)
      ((Rule.named (interpreter.evaluate depth) scope (.template entries)).from? state)
      ((interpreter.evaluate (depth + 1) scope (.template entries)).from? state) := by
  refine Rule.handsOver_of_seen ?_
  rw [id_map]
  rfl

/-- A function is given the values that the struct of the template would hold. -/
theorem positional_handsOver (distinct : Table.Distinct entries)
    (noAtoms : Node.NoAtomEntries entries) :
    Option.Rel (HandsOver Table.values)
      ((Rule.positional (interpreter.evaluate depth) scope (.template entries)).from? state)
      ((interpreter.evaluate (depth + 1) scope (.template entries)).from? state) :=
  Rule.handsOver_of_seen (Rule.from?_positional_template distinct noAtoms)

end Interpreter

/-! ## Ends that differ in new cells only -/

/-- A correspondence under which the first cells, serial numbers, labels and the printed text are
the same in both runs. -/
structure Correspondence.RenamesNew (correspondence : Correspondence) (size : Nat) : Prop where
  cells : ∀ cell < size, correspondence.cells cell cell
  serials : correspondence.serials = Eq
  labels : correspondence.relabel = id
  printed : correspondence.leftText = correspondence.rightText

/-- Two ends of runs: the same error or the same value, and the same state, but for the numbers of
cells that are new. -/
def AlikeFrom (size : Nat) (ended ended' : Except Error Value × State) : Prop :=
  ∃ correspondence : Correspondence, correspondence.RenamesNew size ∧
    Correspondence.Outcomes correspondence.Values ended.1 ended'.1 ∧
      correspondence.States ended.2 ended'.2

/-- If one of two runs ends, then so does the other, and their ends are related. -/
def EndTogether (related : Except Error Value × State → Except Error Value × State → Prop)
    (ends ends' : Except Error Value → State → Prop) : Prop :=
  (∀ outcome after, ends outcome after → ∃ outcome' after', ends' outcome' after' ∧
      related (outcome, after) (outcome', after')) ∧
    ∀ outcome' after', ends' outcome' after' → ∃ outcome after, ends outcome after ∧
      related (outcome, after) (outcome', after')

theorem State.grows_entering (state : State) (table : Table Value) :
    state.Grows (state.entering table) :=
  Run.Quiet.alloc table (Run.from?_alloc table state)

namespace AlikeFrom

variable {size : Nat} {state left right : State} {ended ended' : Except Error Value × State}

theorem of_grown (old : size ≤ state.heap.size) (lefts : state.Grows left)
    (rights : state.Grows right)
    (outcomes : Correspondence.Outcomes (Correspondence.grown lefts rights).Values ended.1 ended'.1)
    (states : (Correspondence.grown lefts rights).States ended.2 ended'.2) :
    AlikeFrom size ended ended' :=
  ⟨Correspondence.grown lefts rights,
    ⟨fun _ below => Or.inl ⟨rfl, Nat.lt_of_lt_of_le below old⟩, rfl, rfl, rfl⟩, outcomes, states⟩

/-- Failures with one error in one state are alike. -/
theorem failed (old : size ≤ state.heap.size) (closed : state.heap.Closed) (error : Error) :
    AlikeFrom size (.error error, state) (.error error, state) :=
  of_grown old (.refl state) (.refl state) (.error error)
    (Correspondence.grown_states closed (.refl state) (.refl state))

theorem tagged (alike : AlikeFrom size ended ended') (operator : Operator) :
    AlikeFrom size (ended.1.mapError (·.tag operator), ended.2)
      (ended'.1.mapError (·.tag operator), ended'.2) := by
  obtain ⟨correspondence, renames, outcomes, states⟩ := alike
  refine ⟨correspondence, renames, ?_, states⟩
  generalize ended.1 = outcome at outcomes ⊢
  generalize ended'.1 = outcome' at outcomes ⊢
  cases outcomes with
  | value values => exact .value values
  | error error => exact .error (error.tag operator)

end AlikeFrom

/-! ## Calls -/

/-- What goes on with arguments goes on alike, whether the operand gave them as they are or they
are taken out of the struct that it evaluated to. -/
theorem alike_of_handsOver {α : Type} {view : Table Value → α} {wanted : Nat → α → Prop}
    {size : Nat} {state : State} {arguments : Run α} {operand : Run Value} {taken : Value → Run α}
    {next : α → Run Value} (old : size ≤ state.heap.size) (closed : state.heap.Closed)
    (handsOver : Option.Rel (HandsOver view) (arguments.from? state) (operand.from? state))
    (takes : ∀ (cell : Cell) (after : State),
      (taken (.struct cell)).from? after = some (.ok (view (after.heap.read cell)), after))
    (keeps : (Discipline.allocated state.printed).Keeps state arguments wanted)
    (within : ∀ (size : Nat) (table : Table Value), wanted size (view table) →
      ∀ value ∈ table.values, (Discipline.allocated state.printed).Admits size value)
    (continues : ∀ (table : Table Value) (after : State), state.heap.size ≤ after.heap.size →
      let correspondence := Correspondence.grown (.refl after) (after.grows_entering table)
      correspondence.Tables table table →
        correspondence.Agree correspondence.Values (next (view table)) (next (view table))) :
    Option.Rel (AlikeFrom size) ((arguments >>= next).from? state)
      ((operand >>= taken >>= next).from? state) := by
  have keptAtStart : (Discipline.allocated state.printed).kept state :=
    ⟨closed, "", (String.append_empty).symm⟩
  have ended := keeps keptAtStart
  rw [bind_assoc, Run.from?_bind, Run.from?_bind]
  generalize arguments.from? state = ran at handsOver ended ⊢
  generalize operand.from? state = ran' at handsOver ⊢
  cases handsOver with
  | none => exact .none
  | some hands =>
      cases hands with
      | failed error after =>
          have reached := ended _ _ rfl
          exact .some (.failed (Nat.le_trans old reached.grown) reached.kept.1 error)
      | built table after =>
          -- on the one side the run goes on where the table was built, on the other side with one
          -- more cell, which no value of the table refers to
          have reached := ended _ _ rfl
          let grows := after.grows_entering table
          have tables : (Correspondence.grown (.refl after) grows).Tables table table := by
            refine List.forall₂_same.mpr fun entry member => ⟨rfl, ?_⟩
            exact Correspondence.grown_values_self (.refl after) grows
              (within _ table (reached.value _ rfl) entry.2 (List.mem_map_of_mem member))
          have ends := continues table after reached.grown tables
            (Correspondence.grown_states reached.kept.1 (.refl after) grows)
          have read : (after.entering table).heap.read after.heap.size = table :=
            after.heap.read_alloc_self table
          dsimp only
          rw [Run.from?_bind_ok (takes after.heap.size (after.entering table)), read]
          generalize (next (view table)).from? after = last at ends ⊢
          generalize (next (view table)).from? (after.entering table) = last' at ends ⊢
          cases ends with
          | none => exact .none
          | some same =>
              exact .some (.of_grown (Nat.le_trans old reached.grown) _ _ same.1 same.2)

namespace Interpreter

variable (interpreter : Interpreter) (depth : Nat) {scope : Cell} {entries : List (String × Node)}
  {before : State}

theorem call_function_alike (distinct : Table.Distinct entries)
    (noAtoms : Node.NoAtomEntries entries) {size : Nat} {called : State}
    (old : size ≤ called.heap.size) (closed : called.heap.Closed)
    (present : scope < called.heap.size) (function : Function) :
    Option.Rel (AlikeFrom size)
      ((Rule.positional (interpreter.evaluate depth) scope (.template entries) >>=
        function.call).from? called)
      ((Rule.callOn (interpreter.evaluate depth) scope
        (interpreter.evaluate (depth + 1) scope (.template entries))
        (.function function)).from? called) := by
  have governs : (Discipline.allocated called.printed).Governs (interpreter.evaluate depth) :=
    Discipline.governs_evaluate interpreter depth
  refine alike_of_handsOver old closed
    (interpreter.positional_handsOver depth scope entries called distinct noAtoms) (fun _ _ => rfl)
    (Discipline.positional_keeps governs present (.template entries)) (fun _ _ admits => admits) ?_
  intro table after _ correspondence tables
  exact Correspondence.functionCall_agrees rfl tables.values

theorem call_action_alike {size : Nat} {called : State} (old : size ≤ called.heap.size)
    (closed : called.heap.Closed) (present : scope < called.heap.size) {action : Action}
    (admits : (Discipline.allocated called.printed).Admits called.heap.size (.action action)) :
    Option.Rel (AlikeFrom size)
      ((Rule.named (interpreter.evaluate depth) scope (.template entries) >>=
        Rule.invoke (interpreter.evaluate depth) scope action).from? called)
      ((Rule.callOn (interpreter.evaluate depth) scope
        (interpreter.evaluate (depth + 1) scope (.template entries))
        (.action action)).from? called) := by
  have governs : (Discipline.allocated called.printed).Governs (interpreter.evaluate depth) :=
    Discipline.governs_evaluate interpreter depth
  refine alike_of_handsOver old closed
    (interpreter.named_handsOver depth scope entries called) (fun _ _ => rfl)
    (Discipline.named_keeps governs present (.template entries)) (fun _ _ found => found.2) ?_
  intro table after grown correspondence tables
  have respects : correspondence.Respects (interpreter.evaluate depth) :=
    Correspondence.respects_evaluate interpreter
      (Correspondence.loadsAlike_of_same rfl fun same => same) depth
  -- the scope and what the action captured were there before the struct
  have scopes : correspondence.cells scope scope :=
    Or.inl ⟨rfl, Nat.lt_of_lt_of_le present grown⟩
  have actions : correspondence.Actions action action :=
    Correspondence.grown_values_self _ _ (admits.mono grown)
  exact Correspondence.invoke_agrees respects scopes actions tables

/-- Within a depth, a call with a template as its operand and a call on what the template evaluates
to within the next depth end alike. -/
theorem call_alike (distinct : Table.Distinct entries) (closed : before.heap.Closed)
    (present : scope < before.heap.size) (callee : Node)
    (suits : ∀ function called, (interpreter.evaluate depth scope callee).from? before =
      some (.ok (.function function), called) → Node.NoAtomEntries entries) :
    Option.Rel (AlikeFrom before.heap.size)
      ((Rule.call (interpreter.evaluate depth) scope callee (.template entries)).from? before)
      ((interpreter.evaluate depth scope callee >>=
        Rule.callOn (interpreter.evaluate depth) scope
          (interpreter.evaluate (depth + 1) scope (.template entries))).from? before) := by
  rw [Rule.call, Run.from?_bind, Run.from?_bind]
  cases ran : (interpreter.evaluate depth scope callee).from? before with
  | none => exact .none
  | some ended =>
      obtain ⟨outcome, called⟩ := ended
      obtain ⟨closedNow, within⟩ := interpreter.evaluate_allocated closed present ran
      have grown : before.heap.size ≤ called.heap.size := interpreter.size_le_of_evaluated ran
      have presentNow : scope < called.heap.size := Nat.lt_of_lt_of_le present grown
      cases outcome with
      | error error => exact .some (.failed grown closedNow error)
      | ok value =>
          cases value with
          | function function =>
              exact interpreter.call_function_alike depth distinct (suits function called ran)
                grown closedNow presentNow function
          | action action =>
              exact interpreter.call_action_alike depth grown closedNow presentNow
                (within _ rfl)
          | _ => exact .some (.failed grown closedNow _)

/-- The same of the expressions, whose errors note the call. -/
theorem calling_alike (distinct : Table.Distinct entries) (closed : before.heap.Closed)
    (present : scope < before.heap.size) (callee : Node)
    (suits : ∀ function called, interpreter.Ends scope callee before
      (.ok (.function function)) called → Node.NoAtomEntries entries) :
    Option.Rel (AlikeFrom before.heap.size)
      ((interpreter.evaluate (depth + 1) scope (.calling callee (.template entries))).from? before)
      ((Run.tagged .call (interpreter.evaluate depth scope callee >>=
        Rule.callOn (interpreter.evaluate depth) scope
          (interpreter.evaluate (depth + 1) scope (.template entries)))).from? before) := by
  have alike := interpreter.call_alike depth distinct closed present callee
    fun function called ran => suits function called ⟨depth, ran⟩
  rw [Node.calling, evaluate_operator, Run.from?_tagged, Run.from?_tagged]
  exact Correspondence.rel_map alike fun _ _ same => same.tagged .call

theorem ends_calling_iff (scope : Cell) (callee : Node) {operand : Node}
    (noTemplate : operand.kind ≠ .template) (noAtom : operand.kind ≠ .atom) (before : State)
    (outcome : Except Error Value) (after : State) :
    interpreter.Ends scope (.calling callee operand) before outcome after ↔
      interpreter.EndsByValue scope callee operand before outcome after := by
  have same (depth : Nat) : interpreter.evaluate (depth + 1) scope (.calling callee operand) =
      Run.tagged .call
        (Rule.callByValue (interpreter.evaluate depth) scope callee operand) := by
    rw [Node.calling, evaluate_operator, ← Rule.call_eq_callByValue noTemplate noAtom]
    rfl
  constructor
  · intro ends
    obtain ⟨depth, ran⟩ := ends.exists_succ
    exact ⟨depth, same depth ▸ ran⟩
  · rintro ⟨depth, ran⟩
    exact ⟨depth + 1, (same depth).symm ▸ ran⟩

theorem ends_together (distinct : Table.Distinct entries) (closed : before.heap.Closed)
    (present : scope < before.heap.size) (callee : Node)
    (suits : ∀ function called, interpreter.Ends scope callee before
      (.ok (.function function)) called → Node.NoAtomEntries entries) :
    EndTogether (AlikeFrom before.heap.size)
      (interpreter.Ends scope (.calling callee (.template entries)) before)
      (interpreter.EndsByValue scope callee (.template entries) before) := by
  have alike := fun depth : Nat =>
    interpreter.calling_alike depth distinct closed present callee suits
  constructor
  · intro outcome after ends
    obtain ⟨depth, ran⟩ := ends.exists_succ
    obtain ⟨⟨outcome', after'⟩, ran', same⟩ := Correspondence.exists_of_rel_some (ran ▸ alike depth)
    -- the callee and the body may nest as deeply as the template
    have further := Rule.tagged_callOn_extends (interpreter.evaluate_extends (Nat.le_succ depth))
      scope callee (.refl (interpreter.evaluate (depth + 1) scope (.template entries)))
    exact ⟨outcome', after', ⟨depth + 1, further ran'⟩, same⟩
  · rintro outcome' after' ⟨depth, ran'⟩
    have further := Rule.tagged_callOn_extends (interpreter.evaluate_extends (Nat.le_refl depth))
      scope callee (interpreter.evaluate_extends (Nat.le_succ depth) scope (.template entries))
    have flipped := Correspondence.rel_flip (alike depth) fun _ _ same => same
    obtain ⟨⟨outcome, after⟩, ran, same⟩ :=
      Correspondence.exists_of_rel_some (further ran' ▸ flipped)
    exact ⟨outcome, after, ⟨depth + 1, ran⟩, same⟩

end Interpreter

/-- An action that is called with a template is given the table of the struct that the template
evaluates to, and a function the values of that struct in order if no entry is an atom; either after
the same effects, or with the same error. Calls with a template and calls by value, which is how all
operands but templates and atoms are passed, end together and alike but for the numbers of new
cells. -/
theorem inline_and_struct_arguments_agree (interpreter : Interpreter) (scope : Cell)
    {entries : List (String × Node)} (distinct : Table.Distinct entries) :
    (∀ depth state, Option.Rel (HandsOver id)
        ((Rule.named (interpreter.evaluate depth) scope (.template entries)).from? state)
        ((interpreter.evaluate (depth + 1) scope (.template entries)).from? state)) ∧
      (Node.NoAtomEntries entries → ∀ depth state, Option.Rel (HandsOver Table.values)
        ((Rule.positional (interpreter.evaluate depth) scope (.template entries)).from? state)
        ((interpreter.evaluate (depth + 1) scope (.template entries)).from? state)) ∧
      ∀ (callee : Node) (before : State),
        (∀ operand : Node, operand.kind ≠ .template → operand.kind ≠ .atom →
          ∀ outcome after, interpreter.Ends scope (.calling callee operand) before outcome after ↔
            interpreter.EndsByValue scope callee operand before outcome after) ∧
          (before.heap.Closed → scope < before.heap.size →
            (∀ function called, interpreter.Ends scope callee before
              (.ok (.function function)) called → Node.NoAtomEntries entries) →
            EndTogether (AlikeFrom before.heap.size)
              (interpreter.Ends scope (.calling callee (.template entries)) before)
              (interpreter.EndsByValue scope callee (.template entries) before)) := by
  refine ⟨fun depth state => interpreter.named_handsOver depth scope entries state,
    fun noAtoms depth state =>
      interpreter.positional_handsOver depth scope entries state distinct noAtoms,
    fun callee before => ⟨fun operand noTemplate noAtom =>
      interpreter.ends_calling_iff scope callee noTemplate noAtom before, ?_⟩⟩
  exact fun closed present suits => interpreter.ends_together distinct closed present callee suits

/-- A scope with a function that gives a new sequence of its first argument. -/
private def holdsFunction : State :=
  let wraps : Function :=
    { name := "wraps", serial := 0, code := .native fun _ => .ok (.sequence [.argument 0]) }
  { heap := ⟨#[[("wraps", .function wraps), ("k", .bool true)]]⟩, supply := 1 }

/-- A template whose only entry is an atom, and a constant that is printed. -/
private def nestedAtom : List (String × Node) :=
  [("nested", .template [("name", .atom "k")]),
    ("said", .expression (.operator "print") .void (.constant (.bool true)))]

theorem nested_atom_is_name_in_both_calls :
    Table.Distinct nestedAtom ∧ Node.NoAtomEntries nestedAtom ∧
      ∃ after after', ({} : Interpreter).Ends 0
          (.calling (.accessor "wraps") (.template nestedAtom)) holdsFunction
          (.ok (.struct 2)) after ∧
        ({} : Interpreter).EndsByValue 0 (.accessor "wraps") (.template nestedAtom) holdsFunction
          (.ok (.struct 3)) after' ∧
        after.heap.read 2 = [("0", .struct 1)] ∧ after.heap.read 1 = [("name", .string "k")] ∧
        after.printed = "true\n" ∧
        AlikeFrom 1 (.ok (.struct 2), after) (.ok (.struct 3), after') := by
  have distinct : Table.Distinct nestedAtom := by decide
  have noAtoms : Node.NoAtomEntries nestedAtom := by
    intro entry member
    simp only [nestedAtom, List.mem_cons, List.not_mem_nil, or_false] at member
    rcases member with rfl | rfl <;> exact nofun
  have closed : holdsFunction.heap.Closed := by
    refine Heap.closed_of_tables fun table isTable value member => ?_
    cases List.mem_singleton.mp isTable
    rcases List.mem_pair.mp member with rfl | rfl <;> trivial
  have together := ((inline_and_struct_arguments_agree {} 0 distinct).2.2 (.accessor "wraps")
    holdsFunction).2 closed (by decide) fun _ _ _ => noAtoms
  obtain ⟨after, inline, read, readInner, printed⟩ : ∃ after, ({} : Interpreter).Ends 0
      (.calling (.accessor "wraps") (.template nestedAtom)) holdsFunction (.ok (.struct 2)) after ∧
        after.heap.read 2 = [("0", .struct 1)] ∧ after.heap.read 1 = [("name", .string "k")] ∧
          after.printed = "true\n" :=
    ⟨_, ⟨4, rfl⟩, rfl, rfl, by decide +kernel⟩
  obtain ⟨after', byValue⟩ : ∃ after', ({} : Interpreter).EndsByValue 0 (.accessor "wraps")
      (.template nestedAtom) holdsFunction (.ok (.struct 3)) after' :=
    ⟨_, 3, rfl⟩
  obtain ⟨outcome, reached, ends, alike⟩ := together.2 _ _ byValue
  obtain ⟨rfl, rfl⟩ := ends.unique _ inline
  exact ⟨distinct, noAtoms, reached, after', inline, byValue, read, readInner, printed, alike⟩

end Tabula
