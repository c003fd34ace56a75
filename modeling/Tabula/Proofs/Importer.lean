import Tabula.Launch
import Tabula.Proofs.Confinement
import Tabula.Proofs.Correspondence.Rules
import Tabula.Proofs.Depth
import Tabula.Proofs.Isolation

/-!
# A module cannot observe its importer

An imported program starts in an empty scope. Two such runs that begin in unrelated states pair the
cells and numbers that are still to come, and nothing that was there before; and a loader that
answers a path with one program answers both, but for the labels of a program that is read anew. So
the two runs do the same, print the same, and end alike.
-/

namespace Tabula

/-- Programs beside a file are read anew each time, and nothing else is loaded. -/
theorem Launch.loaderBeside_steadyFrom (read : String → Except String String)
    (root : Option String) (since : Nat) : (loaderBeside read root).SteadyFrom since := by
  rw [loaderBeside]
  split
  · exact (Loader.stampsFrom_files _).steadyFrom
  · exact Loader.steadyFrom_of_fixed (fun _ _ _ => rfl) since

namespace Correspondence

/-- Two states that have nothing in common but what is still to come. -/
def apart (state other : State) (relabel : Label → Label)
    (injective : Function.Injective relabel) : Correspondence where
  cells := Aligned state.heap.size other.heap.size
  serials := Aligned state.supply other.supply
  relabel := relabel
  leftText := state.printed
  rightText := other.printed
  biUnique_cells := biUnique_aligned _ _
  biUnique_serials := biUnique_aligned _ _
  injective_relabel := injective

theorem apart_states (state other : State) (relabel : Label → Label)
    (injective : Function.Injective relabel) :
    (apart state other relabel injective).States state other := by
  refine ⟨⟨?_, fun offset => ⟨offset, rfl, rfl⟩⟩, fun offset => ⟨offset, rfl, rfl⟩, "", ?_⟩
  · rintro cell cell' ⟨offset, rfl, rfl⟩
    rw [Heap.read_of_size_le _ (Nat.le_add_right _ offset),
      Heap.read_of_size_le _ (Nat.le_add_right _ offset)]
    exact .nil
  · exact ⟨(String.append_empty).symm, (String.append_empty).symm⟩

theorem Heaps.insert_alone {correspondence : Correspondence} {left right : Heap}
    (heaps : correspondence.Heaps left right) {cell other : Cell}
    (alone : ∀ partner, ¬ correspondence.cells cell partner)
    (aloneOther : ∀ partner, ¬ correspondence.cells partner other) (name : String)
    (value value' : Value) :
    correspondence.Heaps (left.insert cell name value) (right.insert other name value') := by
  constructor
  · intro read read' cells
    have different : cell ≠ read := by
      rintro rfl
      exact alone read' cells
    have differentOther : other ≠ read' := by
      rintro rfl
      exact aloneOther read cells
    rw [Heap.read_insert_of_ne _ _ _ different, Heap.read_insert_of_ne _ _ _ differentOther]
    exact heaps.tables cells
  · intro offset
    rw [Heap.size_insert, Heap.size_insert]
    exact heaps.frontier offset

end Correspondence

/-! ## Two imports -/

/-- Two imports print the same text; and they fail with one error, or bind one name to values that
have one text and one tree. -/
structure ImportedAlike (state other : State) (scope scope' : Cell)
    (ended ended' : Except Error Value × State) : Prop where
  printed : ∃ text, ended.2.printed = state.printed ++ text ∧
    ended'.2.printed = other.printed ++ text
  outcomes :
    (∃ error, ended.1 = .error error ∧ ended'.1 = .error error) ∨
      ∃ name value value', ended.1 = .ok .void ∧ ended'.1 = .ok .void ∧
        ended.2.heap.read scope = (state.heap.read scope).insert name value ∧
        ended'.2.heap.read scope' = (other.heap.read scope').insert name value' ∧
        ended.2.heap.describe value = ended'.2.heap.describe value' ∧
        ended.2.heap.toJson value = ended'.2.heap.toJson value'

theorem ImportedAlike.symm {state other : State} {scope scope' : Cell}
    {ended ended' : Except Error Value × State}
    (alike : ImportedAlike state other scope scope' ended ended') :
    ImportedAlike other state scope' scope ended' ended := by
  obtain ⟨⟨text, isLeft, isRight⟩, outcomes⟩ := alike
  refine ⟨⟨text, isRight, isLeft⟩, ?_⟩
  rcases outcomes with ⟨error, failed, failed'⟩ |
    ⟨name, value, value', bound, bound', table, table', sameText, sameTree⟩
  · exact Or.inl ⟨error, failed', failed⟩
  · exact Or.inr ⟨name, value', value, bound', bound, table', table, sameText.symm,
      sameTree.symm⟩

/-- Modules that were loaded alike are bound alike in scopes that were there before. -/
theorem ImportedAlike.of_loaded {state other after after' : State} {scope scope' : Cell}
    {relabel : Label → Label} {injective : Function.Injective relabel} {value value' : Value}
    (name : String) (present : scope < state.heap.size) (present' : scope' < other.heap.size)
    (states : (Correspondence.apart state other relabel injective).States after after')
    (values : (Correspondence.apart state other relabel injective).Values value value')
    (frame : state.heap.size ≤ after.heap.size ∧
      ∀ cell < state.heap.size, after.heap.read cell = state.heap.read cell)
    (frame' : other.heap.size ≤ after'.heap.size ∧
      ∀ cell < other.heap.size, after'.heap.read cell = other.heap.read cell) :
    ImportedAlike state other scope scope'
      (.ok .void, { after with heap := after.heap.insert scope name value })
      (.ok .void, { after' with heap := after'.heap.insert scope' name value' }) := by
  -- the importing scopes are older than all paired cells, so binding there leaves these as they are
  have alone : ∀ partner,
      ¬ (Correspondence.apart state other relabel injective).cells scope partner := by
    rintro partner ⟨offset, isScope, _⟩
    exact absurd (isScope ▸ present) (Nat.not_lt.mpr (Nat.le_add_right _ offset))
  have aloneOther : ∀ partner,
      ¬ (Correspondence.apart state other relabel injective).cells partner scope' := by
    rintro partner ⟨offset, _, isScope⟩
    exact absurd (isScope ▸ present') (Nat.not_lt.mpr (Nat.le_add_right _ offset))
  have heaps := states.heaps.insert_alone alone aloneOther name value value'
  have bound : (after.heap.insert scope name value).read scope =
      (state.heap.read scope).insert name value := by
    rw [← frame.2 scope present]
    exact after.heap.read_insert_self name value (Nat.lt_of_lt_of_le present frame.1)
  have bound' : (after'.heap.insert scope' name value').read scope' =
      (other.heap.read scope').insert name value' := by
    rw [← frame'.2 scope' present']
    exact after'.heap.read_insert_self name value' (Nat.lt_of_lt_of_le present' frame'.1)
  exact ⟨states.printed, Or.inr ⟨name, value, value', rfl, rfl, bound, bound',
    heaps.describe values, heaps.toJson values⟩⟩

namespace Rule

theorem importPath_cases (config : ImportConfig) (operand : Node) :
    (∃ path, importPath config operand = pure path) ∨
      ∃ reason, importPath config operand = Run.fail reason := by
  unfold importPath
  split
  · exact Or.inl ⟨_, rfl⟩
  · exact Or.inl ⟨_, rfl⟩
  · exact Or.inr ⟨_, rfl⟩

theorem loadModule_frame (interpreter : Interpreter) {depth : Nat} {path : String}
    {state after : State} {outcome : Except Error (String × Value)}
    (ended : (loadModule interpreter (interpreter.evaluate depth) path).from? state =
      some (outcome, after)) :
    state.heap.size ≤ after.heap.size ∧
      ∀ cell < state.heap.size, after.heap.read cell = state.heap.read cell := by
  let discipline := Discipline.confinement state.heap []
  have governs : discipline.Governs (interpreter.evaluate depth) :=
    Discipline.governs_evaluate interpreter depth
  have start : discipline.kept state := Discipline.confinement_start state []
  have kept := (Discipline.loadModule_keeps interpreter governs path start _ _ ended).kept
  -- nothing is reached from no values
  have unreached : ∀ cell, ¬ state.heap.ReachesStruct [] cell :=
    fun cell reaches => Heap.not_reaches_nil _ cell (Or.inl reaches)
  exact ⟨kept.1, fun cell old => kept.2.1 cell old (unreached cell)⟩

/-- Of two states, let the second one have the greater supply. Then imports of one path end alike
from both, or do not end from either. -/
theorem importModule_alike (interpreter : Interpreter) (depth : Nat) {state other : State}
    {scope scope' : Cell} {operand operand' : Node}
    (steady : interpreter.loader.SteadyFrom state.supply) (older : state.supply ≤ other.supply)
    (present : scope < state.heap.size) (present' : scope' < other.heap.size)
    (samePath : importPath interpreter.config operand = importPath interpreter.config operand') :
    Option.Rel (ImportedAlike state other scope scope')
      ((importModule interpreter (interpreter.evaluate depth) scope operand).from? state)
      ((importModule interpreter (interpreter.evaluate depth) scope' operand').from? other) := by
  obtain ⟨relabel, injective, relabels⟩ := steady (Nat.le_refl state.supply) older
  let apart := Correspondence.apart state other relabel injective
  have loadsAlike : apart.LoadsAlike interpreter.loader := by
    rintro _ _ path ⟨offset, rfl, rfl⟩
    exact relabels offset path
  have respects : apart.Respects (interpreter.evaluate depth) :=
    Correspondence.respects_evaluate interpreter loadsAlike depth
  have states : apart.States state other :=
    Correspondence.apart_states state other relabel injective
  rw [importModule_eq, importModule_eq, ← samePath]
  rcases importPath_cases interpreter.config operand with ⟨path, isPath⟩ | ⟨reason, isFailure⟩
  · rw [isPath, pure_bind, pure_bind, Run.from?_bind, Run.from?_bind]
    have loads := Correspondence.loadModule_agrees interpreter loadsAlike respects path states
    cases ran : (loadModule interpreter (interpreter.evaluate depth) path).from? state with
    | none =>
        rw [ran] at loads
        rw [Correspondence.eq_none_of_rel_none loads]
        exact .none
    | some loaded =>
        rw [ran] at loads
        obtain ⟨loaded', ran', outcomes, statesAfter⟩ := Correspondence.exists_of_rel_some loads
        obtain ⟨outcome, after⟩ := loaded
        obtain ⟨outcome', after'⟩ := loaded'
        rw [ran']
        cases outcomes with
        | error error => exact .some ⟨statesAfter.printed, Or.inl ⟨error, rfl, rfl⟩⟩
        | @value bound bound' same =>
            obtain ⟨name, value⟩ := bound
            obtain ⟨name', value'⟩ := bound'
            obtain ⟨sameName, values⟩ := same
            cases sameName
            exact .some (.of_loaded name present present' statesAfter values
              (loadModule_frame interpreter ran) (loadModule_frame interpreter ran'))
  · rw [isFailure]
    exact .some ⟨states.printed, Or.inl ⟨Error.ofReason reason, rfl, rfl⟩⟩

end Rule

theorem ImportedAlike.tagged {state other : State} {scope scope' : Cell} {left right : Run Value}
    (operator : Operator)
    (alike : Option.Rel (ImportedAlike state other scope scope') (left.from? state)
      (right.from? other)) :
    Option.Rel (ImportedAlike state other scope scope')
      ((Run.tagged operator left).from? state) ((Run.tagged operator right).from? other) := by
  rw [Run.from?_tagged, Run.from?_tagged]
  apply Correspondence.rel_map alike
  rintro ⟨outcome, after⟩ ⟨outcome', after'⟩ ⟨printed, outcomes⟩
  refine ⟨printed, ?_⟩
  rcases outcomes with ⟨error, rfl, rfl⟩ | ⟨name, value, value', rfl, rfl, same⟩
  · exact Or.inl ⟨error.tag operator, rfl, rfl⟩
  · exact Or.inr ⟨name, value, value', rfl, rfl, same⟩

/-- Within any depth, imports of one path from two states end alike, or neither of them ends. -/
theorem Interpreter.import_alike (interpreter : Interpreter) (depth : Nat) (left left' : Node)
    {state other : State} {scope scope' : Cell} {operand operand' : Node}
    (steady : interpreter.loader.SteadyFrom (min state.supply other.supply))
    (present : scope < state.heap.size) (present' : scope' < other.heap.size)
    (samePath : Rule.importPath interpreter.config operand =
      Rule.importPath interpreter.config operand') :
    Option.Rel (ImportedAlike state other scope scope')
      ((interpreter.evaluate depth scope (Node.importing left operand)).from? state)
      ((interpreter.evaluate depth scope' (Node.importing left' operand')).from? other) := by
  cases depth with
  | zero => exact .none
  | succ depth =>
      rw [Node.importing, Node.importing, evaluate_operator, evaluate_operator]
      apply ImportedAlike.tagged .importModule
      rcases Nat.le_total state.supply other.supply with older | older
      · rw [Nat.min_eq_left older] at steady
        exact Rule.importModule_alike interpreter depth steady older present present' samePath
      · rw [Nat.min_eq_right older] at steady
        have alike := Rule.importModule_alike interpreter depth steady older present' present
          samePath.symm
        exact Correspondence.rel_flip alike fun _ _ same => same.symm

/-- Let a loader answer each path with one program or one error, but for the labels of programs that
are read anew. Then imports of one path, from any two scopes in any two states, however deeply
nested, print the same; and if they end, they fail with the same error, or bind the same name to
values with the same text and the same tree. -/
theorem module_cannot_observe_importer (interpreter : Interpreter) {state other : State}
    {scope scope' : Cell} {left left' operand operand' : Node} {depth depth' : Nat}
    {ended ended' : Except Error Value × State}
    (steady : interpreter.loader.SteadyFrom (min state.supply other.supply))
    (present : scope < state.heap.size) (present' : scope' < other.heap.size)
    (samePath : Rule.importPath interpreter.config operand =
      Rule.importPath interpreter.config operand')
    (ran : (interpreter.evaluate depth scope (Node.importing left operand)).from? state =
      some ended)
    (ran' : (interpreter.evaluate depth' scope' (Node.importing left' operand')).from? other =
      some ended') :
    ImportedAlike state other scope scope' ended ended' := by
  -- both runs end within the greater depth as well, where they can be compared
  have deep := interpreter.evaluate_extends (Nat.le_max_left depth depth') _ _ ran
  have deep' := interpreter.evaluate_extends (Nat.le_max_right depth depth') _ _ ran'
  have alike := interpreter.import_alike (max depth depth') left left' steady present present'
    samePath
  rw [deep, deep'] at alike
  cases alike with
  | some same => exact same

/-- Keeps one program. It prints and exports what its name `x` stands for. -/
private def showsName : Interpreter :=
  { loader := Loader.memory
      [("point", [
        .expression (.operator "module") .void (.atom "point"),
        .expression (.operator "print") .void (.atom "x"),
        .expression (.operator "export") .void (.template [("x", .accessor "x")])])] }

/-- A scope that binds the name. -/
private def bindsName : State := { heap := ⟨#[[("x", .bool true)]]⟩ }

/-- A scope that does not bind it, in another heap, and after other runs. -/
private def bindsNothing : State :=
  { heap := ⟨#[[("y", .void)], []]⟩, supply := 5, printed := "earlier\n" }

theorem importer_binding_is_not_observed :
    ∃ ended ended',
      (showsName.evaluate 4 0 (Node.importing .void (.constant (.string "point")))).from?
          bindsName = some ended ∧
        (showsName.evaluate 5 1 (Node.importing .void (.constant (.string "point")))).from?
          bindsNothing = some ended' ∧
        ended.2.heap.get? 0 "point" = some (.struct 3) ∧
        ended'.2.heap.get? 1 "point" = some (.struct 4) ∧
        ImportedAlike bindsName bindsNothing 0 1 ended ended' := by
  obtain ⟨ended, ran, bound⟩ : ∃ ended,
      (showsName.evaluate 4 0 (Node.importing .void (.constant (.string "point")))).from?
          bindsName = some ended ∧
        ended.2.heap.get? 0 "point" = some (.struct 3) := ⟨_, rfl, rfl⟩
  obtain ⟨ended', ran', bound'⟩ : ∃ ended',
      (showsName.evaluate 5 1 (Node.importing .void (.constant (.string "point")))).from?
          bindsNothing = some ended' ∧
        ended'.2.heap.get? 1 "point" = some (.struct 4) := ⟨_, rfl, rfl⟩
  have steady : showsName.loader.SteadyFrom (min bindsName.supply bindsNothing.supply) :=
    Loader.steadyFrom_of_fixed (fun _ _ _ => rfl) _
  refine ⟨ended, ended', ran, ran', bound, bound', ?_⟩
  exact module_cannot_observe_importer showsName steady (by decide) (by decide) rfl ran ran'

end Tabula
