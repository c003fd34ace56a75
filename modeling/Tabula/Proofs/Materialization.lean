import Tabula.Proofs.Depth
import Tabula.Proofs.Invocation
import Tabula.Proofs.RoundTrip

/-!
# What a template builds

All entries of a template are evaluated, in order, each from the state that the one before it left,
whether or not that one failed. Then the first error among them is the error of the template; if
there is none, a new struct holds what they gave under the keys of the template. A template among
the entries goes through the same course when its turn comes.

The structs that come into being on the way have cells of their own, each later than those before it
and later than every cell that existed. What the remaining entries do changes none of them.
-/

namespace Tabula

/-! ## The course of a template -/

/-- What is made of the outcomes of all entries: the first error among them, or else a new struct,
noted together with its table. -/
inductive Concludes (entries : List (String × Node)) (state : State) :
    List (Except Error Value) → Except Error Value → List (Cell × Table Value) → State → Prop
  | failed (values : List Value) (error : Error) (later : List (Except Error Value)) :
      Concludes entries state (values.map .ok ++ .error error :: later) (.error error) [] state
  | built (values : List Value) :
      Concludes entries state (values.map .ok) (.ok (.struct state.heap.size))
        [(state.heap.size, (Table.keys entries).zip values)]
        (state.entering ((Table.keys entries).zip values))

namespace Interpreter

variable (interpreter : Interpreter)

/-- The entries end one after another. An atom stands for its own name, a template among them goes
through a course of its own, and all else is evaluated. The structs of templates among the entries
are noted in the order in which they are built. -/
inductive EntriesEnd (scope : Cell) : List (String × Node) → State →
    List (Except Error Value) → List (Cell × Table Value) → State → Prop
  | nil {state : State} : EntriesEnd scope [] state [] [] state
  | name {key name : String} {rest : List (String × Node)} {before after : State}
      {outcomes : List (Except Error Value)} {built : List (Cell × Table Value)} :
      EntriesEnd scope rest before outcomes built after →
      EntriesEnd scope ((key, .atom name) :: rest) before (.ok (.string name) :: outcomes) built
        after
  | nested {key : String} {inner rest : List (String × Node)} {before between reached after : State}
      {innerOutcomes outcomes : List (Except Error Value)} {outcome : Except Error Value}
      {innerBuilt own built : List (Cell × Table Value)} :
      EntriesEnd scope inner before innerOutcomes innerBuilt between →
      Concludes inner between innerOutcomes outcome own reached →
      EntriesEnd scope rest reached outcomes built after →
      EntriesEnd scope ((key, .template inner) :: rest) before (outcome :: outcomes)
        (innerBuilt ++ own ++ built) after
  | evaluated {key : String} {node : Node} {rest : List (String × Node)}
      {before between after : State} {outcome : Except Error Value}
      {outcomes : List (Except Error Value)} {built : List (Cell × Table Value)} :
      node.kind ≠ .atom →
      node.kind ≠ .template →
      interpreter.Ends scope node before outcome between →
      EntriesEnd scope rest between outcomes built after →
      EntriesEnd scope ((key, node) :: rest) before (outcome :: outcomes) built after

/-- The course of a template: all its entries, and then what is made of their outcomes. -/
def TemplateEnds (scope : Cell) (entries : List (String × Node)) (before : State)
    (outcome : Except Error Value) (built : List (Cell × Table Value)) (after : State) : Prop :=
  ∃ outcomes inner between own, interpreter.EntriesEnd scope entries before outcomes inner between ∧
    Concludes entries between outcomes outcome own after ∧ built = inner ++ own

end Interpreter

/-! ## Templates without repeated keys -/

namespace Node.DistinctTemplates

variable {entries rest : List (String × Node)} {key : String} {node : Node}

theorem of_template (distinct : DistinctTemplates (Node.template entries).subnodes) :
    Table.Distinct entries ∧ DistinctTemplates (subnodesOfEntries entries) := by
  rw [subnodes] at distinct
  exact ⟨distinct entries List.mem_cons_self,
    fun others member => distinct others (List.mem_cons_of_mem _ member)⟩

theorem of_cons (distinct : DistinctTemplates (subnodesOfEntries ((key, node) :: rest))) :
    DistinctTemplates node.subnodes ∧ DistinctTemplates (subnodesOfEntries rest) := by
  rw [subnodesOfEntries] at distinct
  exact ⟨fun others member => distinct others (List.mem_append_left _ member),
    fun others member => distinct others (List.mem_append_right _ member)⟩

end Node.DistinctTemplates

/-! ## Outcomes in order -/

/-- Either there is no error among the outcomes, or there is a first one. -/
theorem values_or_first_error {α : Type} (outcomes : List (Except Error α)) :
    (∃ values : List α, outcomes = values.map .ok) ∨
      ∃ (values : List α) (error : Error) (later : List (Except Error α)),
        outcomes = values.map .ok ++ .error error :: later := by
  induction outcomes with
  | nil => exact Or.inl ⟨[], rfl⟩
  | cons outcome rest inductionHypothesis =>
      cases outcome with
      | error error => exact Or.inr ⟨[], error, rest, rfl⟩
      | ok value =>
          rcases inductionHypothesis with ⟨values, rfl⟩ | ⟨values, error, later, rfl⟩
          · exact Or.inl ⟨value :: values, rfl⟩
          · exact Or.inr ⟨value :: values, error, later, rfl⟩

theorem exists_concludes (entries : List (String × Node)) (state : State)
    (outcomes : List (Except Error Value)) :
    ∃ outcome own after, Concludes entries state outcomes outcome own after := by
  rcases values_or_first_error outcomes with ⟨values, rfl⟩ | ⟨values, error, later, rfl⟩
  · exact ⟨_, _, _, .built values⟩
  · exact ⟨_, _, _, .failed values error later⟩

namespace Rule

theorem from?_mapM_ofExcept_ok {α : Type} (values : List α) (state : State) :
    ((values.map Except.ok).mapM Run.ofExcept).from? state = some (.ok values, state) := by
  induction values with
  | nil => rfl
  | cons value rest inductionHypothesis =>
      rw [List.map_cons, List.mapM_cons, Run.from?_bind_ok (Run.from?_ofExcept (.ok value) state),
        Run.from?_bind_ok inductionHypothesis]
      rfl

theorem from?_mapM_ofExcept_error {α : Type} (values : List α) (error : Error)
    (later : List (Except Error α)) (state : State) :
    ((values.map Except.ok ++ Except.error error :: later).mapM Run.ofExcept).from? state =
      some (.error error, state) := by
  induction values with
  | nil => rfl
  | cons value rest inductionHypothesis =>
      rw [List.map_cons, List.cons_append, List.mapM_cons,
        Run.from?_bind_ok (Run.from?_ofExcept (.ok value) state), Run.from?_bind,
        inductionHypothesis]

/-! ## Attempts at all entries -/

/-- Evaluates all entries in order, and gives their outcomes. -/
def attempts (eval : Evaluator) (scope : Cell) (entries : List (String × Node)) :
    Run (List (Except Error Value)) :=
  (entries.map Prod.snd).mapM fun node => Run.attempt (entry eval scope node)

theorem materialize_eq_attempts (eval : Evaluator) (scope : Cell)
    (entries : List (String × Node)) :
    materialize eval scope entries = attempts eval scope entries >>= fun outcomes =>
      outcomes.mapM Run.ofExcept >>= fun values =>
        pure (Table.ofList ((entries.map Prod.fst).zip values)) := by
  rw [materialize, forAll, attempts, bind_assoc]

variable {eval : Evaluator} {scope : Cell} {key : String} {node : Node}
  {rest entries : List (String × Node)} {before between after : State}
  {outcome : Except Error Value} {outcomes : List (Except Error Value)}

theorem entry_of_kind (noAtom : node.kind ≠ .atom) : entry eval scope node = eval scope node := by
  cases node with
  | atom name => exact absurd rfl noAtom
  | _ => rfl

theorem from?_attempts_cons
    (ran : (entry eval scope node).from? before = some (outcome, between))
    (others : (attempts eval scope rest).from? between = some (.ok outcomes, after)) :
    (attempts eval scope ((key, node) :: rest)).from? before =
      some (.ok (outcome :: outcomes), after) := by
  have attempted : (Run.attempt (entry eval scope node)).from? before =
      some (.ok outcome, between) := by
    rw [Run.from?_attempt, ran]
    rfl
  rw [attempts, List.map_cons, List.mapM_cons, Run.from?_bind_ok attempted]
  rw [attempts] at others
  rw [Run.from?_bind_ok others]
  rfl

theorem attempts_cons_ended
    (ran : (attempts eval scope ((key, node) :: rest)).from? before =
      some (.ok outcomes, after)) :
    ∃ outcome between others, (entry eval scope node).from? before = some (outcome, between) ∧
      (attempts eval scope rest).from? between = some (.ok others, after) ∧
      outcomes = outcome :: others := by
  rw [attempts, List.map_cons, List.mapM_cons] at ran
  rcases Run.bind_ended ran with ⟨error, _, same⟩ | ⟨outcome, between, attempted, ranRest⟩
  · cases same
  obtain ⟨_, same, ranEntry⟩ := attempt_ended attempted
  cases same
  rcases Run.bind_ended ranRest with ⟨error, _, same⟩ | ⟨others, reached, ranOthers, done⟩
  · cases same
  cases done
  exact ⟨outcome, between, others, ranEntry, ranOthers, rfl⟩

theorem attempts_extends {deeper : Evaluator} (further : eval.Extends deeper) (scope : Cell)
    (entries : List (String × Node)) :
    Run.Extends (attempts eval scope entries) (attempts deeper scope entries) :=
  .mapM fun node => (entry_extends further scope node).attempt

end Rule

namespace Interpreter

variable {interpreter : Interpreter} {scope : Cell} {entries : List (String × Node)}
  {before between after : State} {outcome : Except Error Value}
  {outcomes : List (Except Error Value)} {own built : List (Cell × Table Value)} {depth : Nat}

theorem keys_zip_values {values : List Value}
    (sameLength : (values.map Except.ok : List (Except Error Value)).length = entries.length) :
    Table.keys ((Table.keys entries).zip values) = Table.keys entries := by
  refine List.map_fst_zip (Nat.le_of_eq ?_)
  rw [Table.keys, List.length_map, ← sameLength, List.length_map]

/-- Once all entries have been attempted, the template ends as their outcomes say. -/
theorem from?_template_of_attempts (distinct : Table.Distinct entries)
    (attempted : (Rule.attempts (interpreter.evaluate depth) scope entries).from? before =
      some (.ok outcomes, between))
    (sameLength : outcomes.length = entries.length)
    (concludes : Concludes entries between outcomes outcome own after) :
    (interpreter.evaluate (depth + 1) scope (.template entries)).from? before =
      some (outcome, after) := by
  rw [evaluate, step, Rule.materialize_eq_attempts, bind_assoc, Run.from?_bind_ok attempted,
    bind_assoc]
  cases concludes with
  | failed values error later =>
      rw [Run.from?_bind, Rule.from?_mapM_ofExcept_error]
  | built values =>
      have unchanged : Table.ofList ((Table.keys entries).zip values) =
          (Table.keys entries).zip values := by
        refine @Table.overlay_of_distinct _ [] _ ?_
        rw [List.nil_append, Table.Distinct, keys_zip_values sameLength]
        exact distinct
      rw [Run.from?_bind_ok (Rule.from?_mapM_ofExcept_ok values between), pure_bind]
      change (Run.alloc (Table.ofList ((Table.keys entries).zip values)) >>= _).from? between = _
      rw [unchanged, Run.from?_bind_ok (Run.from?_alloc _ between)]
      rfl

theorem template_attempted
    (ran : (interpreter.evaluate (depth + 1) scope (.template entries)).from? before =
      some (outcome, after)) :
    ∃ outcomes between,
      (Rule.attempts (interpreter.evaluate depth) scope entries).from? before =
        some (.ok outcomes, between) := by
  rw [evaluate, step, Rule.materialize_eq_attempts, bind_assoc] at ran
  rcases Run.bind_ended ran with ⟨error, failed, _⟩ | ⟨outcomes, between, attempted, _⟩
  · obtain ⟨outcomes, same, _⟩ := Rule.mapM_attempt_ended failed
    cases same
  · exact ⟨outcomes, between, attempted⟩

theorem EntriesEnd.length_outcomes
    (ends : interpreter.EntriesEnd scope entries before outcomes built after) :
    outcomes.length = entries.length := by
  induction ends with
  | nil => rfl
  | name _ inductionHypothesis => exact congrArg (· + 1) inductionHypothesis
  | nested _ _ _ _ inductionHypothesis => exact congrArg (· + 1) inductionHypothesis
  | evaluated _ _ _ _ inductionHypothesis => exact congrArg (· + 1) inductionHypothesis

/-! ## The course of a template is what its evaluation does -/

/-- An entry and those after it that end within different depths end within a common one. -/
theorem exists_attempts_cons {key : String} {node : Node} {rest : List (String × Node)}
    (noAtom : node.kind ≠ .atom) (ended : interpreter.Ends scope node before outcome between)
    (others : ∃ depth, (Rule.attempts (interpreter.evaluate depth) scope rest).from? between =
      some (.ok outcomes, after)) :
    ∃ depth, (Rule.attempts (interpreter.evaluate depth) scope ((key, node) :: rest)).from? before =
      some (.ok (outcome :: outcomes), after) := by
  obtain ⟨depth, ran⟩ := ended
  obtain ⟨depth', attempted⟩ := others
  have deeper := interpreter.evaluate_extends (Nat.le_max_left depth depth')
  have deeper' := interpreter.evaluate_extends (Nat.le_max_right depth depth')
  refine ⟨_, Rule.from?_attempts_cons ?_ (Rule.attempts_extends deeper' scope rest attempted)⟩
  rw [Rule.entry_of_kind noAtom]
  exact deeper scope node ran

theorem attempts_of_entriesEnd
    (ends : interpreter.EntriesEnd scope entries before outcomes built after)
    (distinct : Node.DistinctTemplates (Node.subnodesOfEntries entries)) :
    ∃ depth, (Rule.attempts (interpreter.evaluate depth) scope entries).from? before =
      some (.ok outcomes, after) := by
  induction ends with
  | nil => exact ⟨0, rfl⟩
  | name _ inductionHypothesis =>
      obtain ⟨depth, attempted⟩ := inductionHypothesis distinct.of_cons.2
      exact ⟨depth, Rule.from?_attempts_cons rfl attempted⟩
  | nested innerEnds concludes _ innerHypothesis inductionHypothesis =>
      obtain ⟨distinctNode, distinctRest⟩ := distinct.of_cons
      obtain ⟨distinctKeys, distinctInner⟩ := distinctNode.of_template
      obtain ⟨depth, innerAttempted⟩ := innerHypothesis distinctInner
      have ran := from?_template_of_attempts distinctKeys innerAttempted innerEnds.length_outcomes
        concludes
      exact exists_attempts_cons nofun ⟨depth + 1, ran⟩ (inductionHypothesis distinctRest)
  | evaluated noAtom _ ended _ inductionHypothesis =>
      exact exists_attempts_cons noAtom ended (inductionHypothesis distinct.of_cons.2)

theorem entriesEnd_of_attempts
    (distinct : Node.DistinctTemplates (Node.subnodesOfEntries entries))
    (attempted : (Rule.attempts (interpreter.evaluate depth) scope entries).from? before =
      some (.ok outcomes, after)) :
    ∃ built, interpreter.EntriesEnd scope entries before outcomes built after := by
  -- the depth falls where a template is entered, the list where an entry is passed
  induction depth using Nat.strongRecOn generalizing entries before outcomes after with
  | ind depth shallower =>
      induction entries generalizing before outcomes with
      | nil =>
          cases attempted
          exact ⟨[], .nil⟩
      | cons entry rest inductionHypothesis =>
          obtain ⟨key, node⟩ := entry
          obtain ⟨distinctNode, distinctRest⟩ := distinct.of_cons
          obtain ⟨outcome, between, others, ran, ranOthers, rfl⟩ :=
            Rule.attempts_cons_ended attempted
          obtain ⟨built, restEnds⟩ := inductionHypothesis distinctRest ranOthers
          cases node with
          | atom name =>
              cases ran
              exact ⟨built, .name restEnds⟩
          | template inner =>
              obtain ⟨distinctKeys, distinctInner⟩ := distinctNode.of_template
              cases depth with
              | zero => exact nomatch ran
              | succ depth =>
                  obtain ⟨innerOutcomes, middle, innerAttempted⟩ := template_attempted ran
                  obtain ⟨innerBuilt, innerEnds⟩ :=
                    shallower depth (Nat.lt_succ_self depth) distinctInner innerAttempted
                  obtain ⟨outcome', own, reached, concludes⟩ :=
                    exists_concludes inner middle innerOutcomes
                  have ran' := from?_template_of_attempts distinctKeys innerAttempted
                    innerEnds.length_outcomes concludes
                  cases ran.symm.trans ran'
                  exact ⟨_, .nested innerEnds concludes restEnds⟩
          | _ => exact ⟨built, .evaluated nofun nofun ⟨depth, ran⟩ restEnds⟩

theorem ends_template_iff (distinct : Node.DistinctTemplates (Node.template entries).subnodes) :
    interpreter.Ends scope (.template entries) before outcome after ↔
      ∃ built, interpreter.TemplateEnds scope entries before outcome built after := by
  obtain ⟨distinctKeys, distinctBelow⟩ := distinct.of_template
  constructor
  · intro ended
    obtain ⟨depth, ran⟩ := ended.exists_succ
    obtain ⟨outcomes, between, attempted⟩ := template_attempted ran
    obtain ⟨inner, ends⟩ := entriesEnd_of_attempts distinctBelow attempted
    obtain ⟨outcome', own, after', concludes⟩ := exists_concludes entries between outcomes
    have ran' := from?_template_of_attempts distinctKeys attempted ends.length_outcomes concludes
    cases ran.symm.trans ran'
    exact ⟨_, outcomes, inner, between, own, ends, concludes, rfl⟩
  · rintro ⟨_, outcomes, inner, between, own, ends, concludes, _⟩
    obtain ⟨depth, attempted⟩ := attempts_of_entriesEnd ends distinctBelow
    exact ⟨depth + 1,
      from?_template_of_attempts distinctKeys attempted ends.length_outcomes concludes⟩

end Interpreter

/-! ## New cells -/

/-- The structs have cells of their own, each later than those before it, and they were allocated
between two numbers of cells. -/
structure NewCells (first last : Nat) (built : List (Cell × Table Value)) : Prop where
  grown : first ≤ last
  ordered : (built.map Prod.fst).Pairwise (· < ·)
  between : ∀ cell ∈ built.map Prod.fst, first ≤ cell ∧ cell < last

namespace NewCells

variable {first middle last : Nat} {earlier later : List (Cell × Table Value)}

theorem none (grown : first ≤ last) : NewCells first last [] where
  grown := grown
  ordered := List.Pairwise.nil
  between _ member := absurd member List.not_mem_nil

theorem single (cell : Cell) (table : Table Value) :
    NewCells cell (cell + 1) [(cell, table)] where
  grown := Nat.le_succ cell
  ordered := List.pairwise_singleton _ _
  between other member := by
    cases List.mem_singleton.mp member
    exact ⟨Nat.le_refl _, Nat.lt_succ_self _⟩

theorem append (new : NewCells first middle earlier) (newer : NewCells middle last later) :
    NewCells first last (earlier ++ later) where
  grown := Nat.le_trans new.grown newer.grown
  ordered := by
    rw [List.map_append, List.pairwise_append]
    refine ⟨new.ordered, newer.ordered, fun cell member cell' member' => ?_⟩
    exact Nat.lt_of_lt_of_le (new.between cell member).2 (newer.between cell' member').1
  between cell member := by
    rw [List.map_append, List.mem_append] at member
    rcases member with isEarlier | isLater
    · exact ⟨(new.between cell isEarlier).1,
        Nat.lt_of_lt_of_le (new.between cell isEarlier).2 newer.grown⟩
    · exact ⟨Nat.le_trans new.grown (newer.between cell isLater).1,
        (newer.between cell isLater).2⟩

/-- What is allocated later has other cells. -/
theorem disjoint {first' last' : Nat} (new : NewCells first middle earlier)
    (newer : NewCells first' last' later) (apart : middle ≤ first') :
    List.Disjoint (earlier.map Prod.fst) (later.map Prod.fst) := by
  intro cell isEarlier isLater
  have before : cell < first' := Nat.lt_of_lt_of_le (new.between cell isEarlier).2 apart
  exact Nat.not_lt_of_le (newer.between cell isLater).1 before

end NewCells

theorem Concludes.newCells {entries : List (String × Node)} {state after : State}
    {outcomes : List (Except Error Value)} {outcome : Except Error Value}
    {own : List (Cell × Table Value)}
    (concludes : Concludes entries state outcomes outcome own after) :
    NewCells state.heap.size after.heap.size own := by
  cases concludes with
  | failed values error later => exact .none (Nat.le_refl _)
  | built values =>
      rw [State.entering, Heap.size_alloc]
      exact .single _ _

theorem Interpreter.Ends.newCells {interpreter : Interpreter} {scope : Cell} {node : Node}
    {before after : State} {outcome : Except Error Value}
    (ends : interpreter.Ends scope node before outcome after) :
    NewCells before.heap.size after.heap.size [] := by
  obtain ⟨depth, ran⟩ := ends
  exact .none (interpreter.size_le_of_evaluated ran)

theorem Interpreter.EntriesEnd.newCells {interpreter : Interpreter} {scope : Cell}
    {entries : List (String × Node)} {before after : State}
    {outcomes : List (Except Error Value)} {built : List (Cell × Table Value)}
    (ends : interpreter.EntriesEnd scope entries before outcomes built after) :
    NewCells before.heap.size after.heap.size built := by
  induction ends with
  | nil => exact .none (Nat.le_refl _)
  | name _ inductionHypothesis => exact inductionHypothesis
  | nested _ concludes _ innerHypothesis inductionHypothesis =>
      exact (innerHypothesis.append concludes.newCells).append inductionHypothesis
  | evaluated _ _ ended _ inductionHypothesis =>
      exact ended.newCells.append inductionHypothesis

/-! ## What was built stays as it was built -/

/-- No cell but these refers to one of these, or to one that is not allocated. -/
def Heap.Secludes (heap : Heap) (secluded : List Cell) : Prop :=
  ∀ cell, cell ∉ secluded → ∀ value ∈ (heap.read cell).values,
    value.Within (fun inner => inner < heap.size ∧ inner ∉ secluded)
      (fun inner => inner < heap.size ∧ inner ∉ secluded)

/-- A run that holds no secluded cell finds none, and changes none. -/
def Discipline.seclusion (start : Heap) (secluded : List Cell) : Discipline where
  writable size cell := cell < size ∧ cell ∉ secluded
  readable size cell := cell < size ∧ cell ∉ secluded
  shape _ := True
  kept state := state.heap.Secludes secluded ∧
    ∀ cell ∈ secluded, cell < state.heap.size ∧ state.heap.read cell = start.read cell
  writable_mono grown held := ⟨Nat.lt_of_lt_of_le held.1 grown, held.2⟩
  readable_mono grown held := ⟨Nat.lt_of_lt_of_le held.1 grown, held.2⟩
  readable_of_writable held := held
  shape_nil := trivial
  shape_insert _ _ _ := trivial
  read kept held := ⟨trivial, kept.1 _ held.2⟩
  alloc := by
    rintro state table ⟨secludes, unchanged⟩ _ within
    constructor
    · intro cell outside value member
      have old : value.Within (fun inner => inner < state.heap.size ∧ inner ∉ secluded)
          (fun inner => inner < state.heap.size ∧ inner ∉ secluded) := by
        by_cases isNew : cell = state.heap.size
        · rw [isNew, Heap.read_alloc_self] at member
          exact within value member
        · rw [Heap.read_alloc_of_ne _ _ isNew] at member
          exact secludes cell outside value member
      rw [Heap.size_alloc]
      exact old.mono (fun _ held => ⟨Nat.lt_succ_of_lt held.1, held.2⟩)
        (fun _ held => ⟨Nat.lt_succ_of_lt held.1, held.2⟩)
    · intro cell member
      obtain ⟨allocated, same⟩ := unchanged cell member
      rw [Heap.size_alloc, Heap.read_alloc_of_ne _ _ (Nat.ne_of_lt allocated)]
      exact ⟨Nat.lt_succ_of_lt allocated, same⟩
  writable_alloc kept :=
    ⟨Nat.lt_succ_self _, fun member => Nat.lt_irrefl _ (kept.2 _ member).1⟩
  insert := by
    rintro state written new key ⟨secludes, unchanged⟩ held within
    constructor
    · intro cell outside value member
      rw [Heap.size_insert]
      rcases Heap.mem_read_insert member with ⟨_, rfl⟩ | old
      · exact within
      · exact secludes cell outside value old
    · intro cell member
      have apart : written ≠ cell := fun same => held.2 (same ▸ member)
      rw [Heap.size_insert, Heap.read_insert_of_ne _ _ _ apart]
      exact unchanged cell member
  fresh kept := kept
  print _ kept := kept

namespace Heap

variable {heap : Heap} {secluded : List Cell}

theorem Closed.secludes_nil (closed : heap.Closed) : heap.Secludes [] := by
  intro cell _ value member
  exact (closed cell value member).mono (fun _ allocated => ⟨allocated, List.not_mem_nil⟩)
    (fun _ allocated => ⟨allocated, List.not_mem_nil⟩)

theorem Secludes.congr {others : List Cell} (secludes : heap.Secludes secluded)
    (same : ∀ cell, cell ∈ secluded ↔ cell ∈ others) : heap.Secludes others := by
  have samePredicate : (fun inner => inner < heap.size ∧ inner ∉ others) =
      fun inner => inner < heap.size ∧ inner ∉ secluded := by
    funext inner
    rw [same inner]
  intro cell outside value member
  rw [samePredicate]
  exact secludes cell (fun member => outside ((same cell).mp member)) value member

/-- A new cell is secluded until someone refers to it. -/
theorem Secludes.alloc (secludes : heap.Secludes secluded) (table : Table Value) :
    (heap.alloc table).2.Secludes (heap.size :: secluded) := by
  intro cell outside value member
  rw [List.mem_cons, not_or] at outside
  rw [read_alloc_of_ne _ _ outside.1] at member
  have widened : ∀ inner, inner < heap.size ∧ inner ∉ secluded →
      inner < (heap.alloc table).2.size ∧ inner ∉ heap.size :: secluded := by
    rintro inner ⟨allocated, notSecluded⟩
    rw [size_alloc, List.mem_cons, not_or]
    exact ⟨Nat.lt_succ_of_lt allocated, Nat.ne_of_lt allocated, notSecluded⟩
  exact (secludes cell outside.2 value member).mono widened widened

end Heap

/-- The secluded cells are allocated, and neither the scope nor what it leads to is one of them. -/
structure State.KeepsApart (state : State) (scope : Cell) (secluded : List Cell) : Prop where
  secludes : state.heap.Secludes secluded
  allocated : ∀ cell ∈ secluded, cell < state.heap.size
  scopeAllocated : scope < state.heap.size
  scopeOutside : scope ∉ secluded

/-- From one state to the other the secluded cells stay as they are, and those of the new structs
join them. -/
structure Spares (secluded : List Cell) (before after : State)
    (built : List (Cell × Table Value)) : Prop where
  secludes : after.heap.Secludes (built.map Prod.fst ++ secluded)
  unchanged : ∀ cell ∈ secluded, after.heap.read cell = before.heap.read cell
  asBuilt : ∀ entry ∈ built, after.heap.read entry.1 = entry.2

namespace Spares

variable {secluded : List Cell} {before between after : State} {scope : Cell}
  {earlier later : List (Cell × Table Value)}

theorem refl (apart : before.KeepsApart scope secluded) : Spares secluded before before [] where
  secludes := apart.secludes
  unchanged _ _ := rfl
  asBuilt _ member := absurd member List.not_mem_nil

theorem keepsApart (spares : Spares secluded before after earlier)
    (new : NewCells before.heap.size after.heap.size earlier)
    (apart : before.KeepsApart scope secluded) :
    after.KeepsApart scope (earlier.map Prod.fst ++ secluded) where
  secludes := spares.secludes
  allocated cell member := by
    rcases List.mem_append.mp member with isNew | old
    · exact (new.between cell isNew).2
    · exact Nat.lt_of_lt_of_le (apart.allocated cell old) new.grown
  scopeAllocated := Nat.lt_of_lt_of_le apart.scopeAllocated new.grown
  scopeOutside member := by
    rcases List.mem_append.mp member with isNew | old
    · exact Nat.not_lt_of_le (new.between scope isNew).1 apart.scopeAllocated
    · exact apart.scopeOutside old

theorem append (first : Spares secluded before between earlier)
    (second : Spares (earlier.map Prod.fst ++ secluded) between after later) :
    Spares secluded before after (earlier ++ later) where
  secludes := second.secludes.congr fun cell => by
    simp only [List.map_append, List.mem_append]
    tauto
  unchanged cell member :=
    (second.unchanged cell (List.mem_append_right _ member)).trans (first.unchanged cell member)
  asBuilt entry member := by
    rcases List.mem_append.mp member with isEarlier | isLater
    · have isSecluded : entry.1 ∈ earlier.map Prod.fst ++ secluded :=
        List.mem_append_left _ (List.mem_map_of_mem isEarlier)
      exact (second.unchanged _ isSecluded).trans (first.asBuilt entry isEarlier)
    · exact second.asBuilt entry isLater

theorem of_ends {interpreter : Interpreter} {node : Node} {outcome : Except Error Value}
    (apart : before.KeepsApart scope secluded)
    (ends : interpreter.Ends scope node before outcome after) :
    Spares secluded before after [] := by
  obtain ⟨depth, ran⟩ := ends
  have governs : (Discipline.seclusion before.heap secluded).Governs (interpreter.evaluate depth) :=
    Discipline.governs_evaluate interpreter depth
  have ended := governs before scope node ⟨apart.scopeAllocated, apart.scopeOutside⟩
    ⟨apart.secludes, fun cell member => ⟨apart.allocated cell member, rfl⟩⟩ outcome after ran
  exact ⟨ended.kept.1, fun cell member => (ended.kept.2 cell member).2,
    fun _ member => absurd member List.not_mem_nil⟩

theorem of_concludes {entries : List (String × Node)} {outcomes : List (Except Error Value)}
    {outcome : Except Error Value} {own : List (Cell × Table Value)}
    (apart : before.KeepsApart scope secluded)
    (concludes : Concludes entries before outcomes outcome own after) :
    Spares secluded before after own := by
  cases concludes with
  | failed values error later => exact .refl apart
  | built values =>
      refine ⟨apart.secludes.alloc _, fun cell member => ?_, fun entry member => ?_⟩
      · exact before.heap.read_alloc_of_ne _ (Nat.ne_of_lt (apart.allocated cell member))
      · cases List.mem_singleton.mp member
        exact before.heap.read_alloc_self _

theorem of_entriesEnd {interpreter : Interpreter} {entries : List (String × Node)}
    {outcomes : List (Except Error Value)} {built : List (Cell × Table Value)}
    (apart : before.KeepsApart scope secluded)
    (ends : interpreter.EntriesEnd scope entries before outcomes built after) :
    Spares secluded before after built := by
  induction ends generalizing secluded with
  | nil => exact .refl apart
  | name _ inductionHypothesis => exact inductionHypothesis apart
  | nested innerEnds concludes _ innerHypothesis inductionHypothesis =>
      have inner := innerHypothesis apart
      have newInner := innerEnds.newCells
      have whole := inner.append (.of_concludes (inner.keepsApart newInner apart) concludes)
      have newWhole := newInner.append concludes.newCells
      exact whole.append (inductionHypothesis (whole.keepsApart newWhole apart))
  | evaluated _ _ ended _ inductionHypothesis =>
      have first := Spares.of_ends apart ended
      exact first.append (inductionHypothesis (first.keepsApart ended.newCells apart))

end Spares

/-! ## Main result -/

namespace Interpreter.TemplateEnds

variable {interpreter : Interpreter} {scope : Cell} {entries : List (String × Node)}
  {before after : State} {outcome : Except Error Value} {built : List (Cell × Table Value)}

theorem newCells (ends : interpreter.TemplateEnds scope entries before outcome built after) :
    NewCells before.heap.size after.heap.size built := by
  obtain ⟨outcomes, inner, between, own, entriesEnd, concludes, rfl⟩ := ends
  exact entriesEnd.newCells.append concludes.newCells

theorem asBuilt (ends : interpreter.TemplateEnds scope entries before outcome built after)
    (closed : before.heap.Closed) (allocated : scope < before.heap.size) :
    ∀ entry ∈ built, after.heap.read entry.1 = entry.2 := by
  obtain ⟨outcomes, inner, between, own, entriesEnd, concludes, rfl⟩ := ends
  have apart : before.KeepsApart scope [] :=
    ⟨closed.secludes_nil, fun _ member => absurd member List.not_mem_nil, allocated,
      List.not_mem_nil⟩
  have spared := Spares.of_entriesEnd apart entriesEnd
  have spares :=
    spared.append (.of_concludes (spared.keepsApart entriesEnd.newCells apart) concludes)
  exact spares.asBuilt

/-- A template that succeeds gives a new struct with its keys. -/
theorem keys_of_ok {value : Value}
    (ends : interpreter.TemplateEnds scope entries before (.ok value) built after) :
    ∃ cell ∈ built.map Prod.fst, value = .struct cell ∧
      (after.heap.read cell).keys = Table.keys entries := by
  obtain ⟨outcomes, inner, between, own, entriesEnd, concludes, rfl⟩ := ends
  have sameLength := entriesEnd.length_outcomes
  cases concludes with
  | built values =>
      refine ⟨between.heap.size, ?_, rfl, ?_⟩
      · rw [List.map_append]
        exact List.mem_append_right _ List.mem_cons_self
      · rw [State.entering, Heap.read_alloc_self]
        exact keys_zip_values sameLength

end Interpreter.TemplateEnds

/-- A template evaluates all its entries in order, whatever comes of them, and ends with the first
error among them or with a new struct under its keys. The cells of all structs built on the way are
new, and no two of them are the same; nothing that runs before the template has ended changes one of
them; and a template that is evaluated again builds other cells. -/
theorem template_runs_all_entries_and_builds_anew (interpreter : Interpreter) (scope : Cell)
    {entries : List (String × Node)}
    (distinct : Node.DistinctTemplates (Node.template entries).subnodes) (before : State) :
    (∀ outcome after, interpreter.Ends scope (.template entries) before outcome after ↔
        ∃ built, interpreter.TemplateEnds scope entries before outcome built after) ∧
      ∀ outcome built after, interpreter.TemplateEnds scope entries before outcome built after →
        (∀ value, outcome = .ok value → ∃ cell ∈ built.map Prod.fst, value = .struct cell ∧
            (after.heap.read cell).keys = Table.keys entries) ∧
          NewCells before.heap.size after.heap.size built ∧
          (before.heap.Closed → scope < before.heap.size →
            ∀ entry ∈ built, after.heap.read entry.1 = entry.2) ∧
          ∀ scope' later outcome' built' final, after.heap.size ≤ later.heap.size →
            interpreter.TemplateEnds scope' entries later outcome' built' final →
              List.Disjoint (built.map Prod.fst) (built'.map Prod.fst) := by
  refine ⟨fun outcome after => Interpreter.ends_template_iff distinct,
    fun outcome built after ends => ⟨?_, ends.newCells, ends.asBuilt, ?_⟩⟩
  · rintro value rfl
    exact ends.keys_of_ok
  · intro scope' later outcome' built' final grown again
    exact ends.newCells.disjoint again.newCells grown

/-- A bound atom, a nested template that prints, a failing entry, and two that follow it. -/
private def mixedEntries : List (String × Node) :=
  let printing (truth : Bool) : Node :=
    .expression (.operator "print") .void (.constant (.bool truth))
  [("name", .atom "k"), ("nested", .template [("said", printing true)]),
    ("failing", .operator "+"), ("later", printing false), ("empty", .template [])]

private def bindsK : State := { heap := ⟨#[[("k", .bool true)]]⟩ }

private theorem distinct_mixedEntries :
    Node.DistinctTemplates (Node.template mixedEntries).subnodes := by
  intro entries member
  have isTemplate : entries = mixedEntries ∨
      entries = [("said", .expression (.operator "print") .void (.constant (.bool true)))] ∨
      entries = [] := by
    simpa [mixedEntries, Node.subnodesOfEntries, Node.subnodes, Node.void] using member
  rcases isTemplate with rfl | rfl | rfl <;> decide

theorem later_entries_run_after_failure :
    Node.DistinctTemplates (Node.template mixedEntries).subnodes ∧
      ∃ built after, ({} : Interpreter).TemplateEnds 0 mixedEntries bindsK
          (.error (Error.ofReason (.structural (.strayOperator "+")))) built after ∧
        after.printed = "true\nfalse\n" ∧ NewCells 1 3 built ∧
        ∀ entry ∈ built, after.heap.read entry.1 = entry.2 := by
  have closed : bindsK.heap.Closed :=
    Heap.closed_of_tables (by simp [bindsK, Table.values, Value.Within])
  obtain ⟨endsIff, course⟩ :=
    template_runs_all_entries_and_builds_anew {} 0 distinct_mixedEntries bindsK
  obtain ⟨built, ends⟩ := (endsIff _ _).mp ⟨4, rfl⟩
  obtain ⟨_, new, asBuilt, _⟩ := course _ _ _ ends
  exact ⟨distinct_mixedEntries, built, _, ends, by decide +kernel, new,
    asBuilt closed (by decide)⟩

end Tabula
