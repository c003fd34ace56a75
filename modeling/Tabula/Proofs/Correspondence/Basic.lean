import Mathlib.Data.List.Forall2
import Mathlib.Logic.Relator
import Tabula.Evaluation
import Tabula.Proofs.Reachability
import Tabula.Proofs.Relabelling

/-!
# Correspondences

Two runs of one program may number their cells differently: because they begin in different heaps,
or because one of them has allocated a cell that the other does without. A correspondence pairs the
cells of one run with those of the other, and from it follows which values, tables, heaps and states
of the two runs correspond.

Programs that are read anew have other labels in every run, so a correspondence also says which
label the other run has in the place of a label of the one. Most correspondences change no labels.

A correspondence is fixed once and for all. Since the two runs allocate in step, it pairs the cells
that are still to come as well: the next cell of one run with the next cell of the other, and so on.

`Correspondence.Agree` says that two steps of evaluation end alike from states that correspond: both
do not finish, both fail with one error, or both have values that correspond; and the states in
which they end correspond again. It is closed under all ways to combine steps.
-/

namespace Tabula

/-! ## Tables with the same keys -/

namespace Table

variable {α β : Type} {related : α → β → Prop}

/-- Two tables with the same keys in the same order and related values. -/
def Alike (related : α → β → Prop) (left : Table α) (right : Table β) : Prop :=
  List.Forall₂ (fun entry other => entry.1 = other.1 ∧ related entry.2 other.2) left right

namespace Alike

variable {left : Table α} {right : Table β}

theorem values (alike : Alike related left right) :
    List.Forall₂ related left.values right.values := by
  induction alike with
  | nil => exact .nil
  | cons same _ inductionHypothesis => exact .cons same.2 inductionHypothesis

theorem get? (alike : Alike related left right) (key : String) :
    Option.Rel related (left.get? key) (right.get? key) := by
  induction alike with
  | nil => exact .none
  | @cons entry other _ _ same _ inductionHypothesis =>
      rw [Table.get?, Table.get?, same.1]
      by_cases here : other.1 = key
      · rw [if_pos here, if_pos here]
        exact .some same.2
      · rw [if_neg here, if_neg here]
        exact inductionHypothesis

theorem contains (alike : Alike related left right) (key : String) :
    left.contains key = right.contains key := by
  have found : Option.Rel related (left.get? key) (right.get? key) := alike.get? key
  rw [Table.contains, Table.contains]
  generalize left.get? key = here at found ⊢
  generalize right.get? key = there at found ⊢
  cases found <;> rfl

theorem insert (alike : Alike related left right) (key : String) {value : α} {other : β}
    (values : related value other) :
    Alike related (left.insert key value) (right.insert key other) := by
  induction alike with
  | nil => exact .cons ⟨rfl, values⟩ .nil
  | @cons entry entry' _ _ same rest inductionHypothesis =>
      rw [Table.insert, Table.insert, same.1]
      by_cases here : entry'.1 = key
      · rw [if_pos here, if_pos here]
        exact .cons ⟨rfl, values⟩ rest
      · rw [if_neg here, if_neg here]
        exact .cons same inductionHypothesis

theorem overlay (alike : Alike related left right) {entries : Table α} {others : Table β}
    (alikeEntries : Alike related entries others) :
    Alike related (left.overlay entries) (right.overlay others) := by
  induction alikeEntries generalizing left right with
  | nil => exact alike
  | @cons entry other _ _ same _ inductionHypothesis =>
      rw [Table.overlay, Table.overlay, List.foldl_cons, List.foldl_cons, same.1]
      exact inductionHypothesis (alike.insert other.1 same.2)

/-- Values that are related in order make tables that are alike under any keys. -/
theorem zip {values : List α} {others : List β} (keys : List String)
    (inOrder : List.Forall₂ related values others) :
    Alike related (keys.zip values) (keys.zip others) := by
  induction inOrder generalizing keys with
  | nil =>
      rw [List.zip_nil_right, List.zip_nil_right]
      exact .nil
  | cons first _ inductionHypothesis =>
      cases keys with
      | nil => exact .nil
      | cons key rest => exact .cons ⟨rfl, first⟩ (inductionHypothesis rest)

theorem erased (alike : Alike related left right) (key : String) :
    Alike related (left.filter fun entry => entry.1 ≠ key)
      (right.filter fun entry => entry.1 ≠ key) := by
  refine List.rel_filter ?_ alike
  intro entry other same
  simp only [decide_eq_true_eq, same.1]

theorem length (alike : Alike related left right) : left.length = right.length :=
  List.Forall₂.length_eq alike

theorem push (alike : Alike related left right) {value : α} {other : β}
    (values : related value other) :
    Alike related (left.push value) (right.push other) := by
  have sameFrom (tries index : Nat) : left.freeFrom tries index = right.freeFrom tries index := by
    induction tries generalizing index with
    | zero => rfl
    | succ tries inductionHypothesis =>
        rw [freeFrom, freeFrom, alike.contains, inductionHypothesis]
  have sameIndex : left.freeIndex = right.freeIndex := by
    rw [freeIndex, freeIndex, alike.length, sameFrom]
  rw [Table.push, Table.push, sameIndex]
  exact alike.insert _ values

theorem sequence {values : List α} {others : List β}
    (inOrder : List.Forall₂ related values others) :
    Alike related (Table.sequence values) (Table.sequence others) := by
  have pushes :
      Relator.LiftFun (Alike related) (Relator.LiftFun related (Alike related))
        Table.push Table.push :=
    fun _ _ alike _ _ same => Alike.push alike same
  exact List.rel_foldl pushes List.Forall₂.nil inOrder

end Alike

end Table

/-! ## What corresponds -/

/-- Pairs of cells, and of serial numbers, that play the same part in two runs; the label that the
other run has for a label; and what each run had printed before. -/
structure Correspondence where
  cells : Cell → Cell → Prop
  serials : Nat → Nat → Prop
  relabel : Label → Label := id
  leftText : String
  rightText : String
  biUnique_cells : Relator.BiUnique cells
  biUnique_serials : Relator.BiUnique serials
  injective_relabel : Function.Injective relabel := by exact fun _ _ same => same

namespace Correspondence

theorem biUnique_eq {α : Type} : Relator.BiUnique (@Eq α) :=
  ⟨fun _ _ _ first second => first.trans second.symm,
    fun _ _ _ first second => first.symm.trans second⟩

/-- The node that the other run has in the place of a node. -/
def twin (correspondence : Correspondence) : Node → Node :=
  Node.relabelled correspondence.relabel

/-- Values that differ in the numbering of cells and functions, and in labels, only. -/
inductive Values (correspondence : Correspondence) : Value → Value → Prop
  | number (value : Float) : Values correspondence (.number value) (.number value)
  | string (text : String) : Values correspondence (.string text) (.string text)
  | bool (truth : Bool) : Values correspondence (.bool truth) (.bool truth)
  | struct {left right : Cell} :
      correspondence.cells left right → Values correspondence (.struct left) (.struct right)
  | function {left right : Nat} (name : String) (code : Code) :
      correspondence.serials left right →
      Values correspondence (.function ⟨name, left, code⟩) (.function ⟨name, right, code⟩)
  | action {left right : Option Cell} (label : Label) (body : List Node) :
      Option.Rel correspondence.cells left right →
      Values correspondence (.action ⟨label, body, left⟩)
        (.action ⟨correspondence.relabel label, body.map correspondence.twin, right⟩)
  | void : Values correspondence .void .void
  | error (text : String) : Values correspondence (.error text) (.error text)

/-- Tables with the same keys and values that correspond. -/
def Tables (correspondence : Correspondence) (left right : Table Value) : Prop :=
  Table.Alike correspondence.Values left right

/-- Cells that correspond hold tables that correspond, and so will the next cells. -/
structure Heaps (correspondence : Correspondence) (left right : Heap) : Prop where
  tables : ∀ {cell other : Cell}, correspondence.cells cell other →
    correspondence.Tables (left.read cell) (right.read other)
  frontier : ∀ offset, correspondence.cells (left.size + offset) (right.size + offset)

/-- The heaps and the next serial numbers correspond, and the same was printed in both runs. -/
structure States (correspondence : Correspondence) (left right : State) : Prop where
  heaps : correspondence.Heaps left.heap right.heap
  supply : ∀ offset, correspondence.serials (left.supply + offset) (right.supply + offset)
  printed : ∃ text, left.printed = correspondence.leftText ++ text ∧
    right.printed = correspondence.rightText ++ text

/-- The same error, or related values. -/
inductive Outcomes {α β : Type} (related : α → β → Prop) : Except Error α → Except Error β → Prop
  | value {left : α} {right : β} : related left right → Outcomes related (.ok left) (.ok right)
  | error (error : Error) : Outcomes related (.error error) (.error error)

/-- From states that correspond, two steps end alike and in states that correspond. -/
def Agree (correspondence : Correspondence) {α β : Type} (related : α → β → Prop)
    (left : Run α) (right : Run β) : Prop :=
  ∀ ⦃state other : State⦄, correspondence.States state other →
    Option.Rel
      (fun ended ended' => Outcomes related ended.1 ended'.1 ∧
        correspondence.States ended.2 ended'.2)
      (left.from? state) (right.from? other)

/-- In scopes that correspond, an evaluator does the same with a node and its twin. -/
def Respects (correspondence : Correspondence) (eval : Evaluator) : Prop :=
  ∀ ⦃scope other : Cell⦄ (node : Node), correspondence.cells scope other →
    correspondence.Agree correspondence.Values (eval scope node)
      (eval other (correspondence.twin node))

variable {correspondence : Correspondence}

/-! ## Numbers still to come -/

/-- Two numbers that are as far beyond a first number as beyond a second one. -/
def Aligned (left right number other : Nat) : Prop :=
  ∃ offset, number = left + offset ∧ other = right + offset

theorem biUnique_aligned (left right : Nat) : Relator.BiUnique (Aligned left right) := by
  constructor
  · rintro number number' other ⟨offset, isNumber, isOther⟩ ⟨offset', isNumber', isOther'⟩
    omega
  · rintro number other other' ⟨offset, isNumber, isOther⟩ ⟨offset', isNumber', isOther'⟩
    omega

/-! ## Twins -/

theorem twin_action (label : Label) (body : List Node) :
    correspondence.twin (.action label body) =
      .action (correspondence.relabel label) (body.map correspondence.twin) := by
  rw [twin, Node.relabelled, Node.relabelledAll_eq_map]

theorem twin_template (entries : List (String × Node)) :
    correspondence.twin (.template entries) =
      .template (entries.map fun entry => (entry.1, correspondence.twin entry.2)) := by
  simp only [twin, Node.relabelled, Node.relabelledEntries_eq_map]

/-- Without new labels every node is its own twin. -/
theorem twin_eq_id (sameLabels : correspondence.relabel = id) : correspondence.twin = id := by
  rw [twin, sameLabels, Node.relabelled_id]

/-! ## Values and heaps -/

theorem Values.constant (constant : Constant) :
    correspondence.Values constant.value constant.value := by
  cases constant with
  | number value => exact .number value
  | string text => exact .string text
  | bool truth => exact .bool truth
  | void => exact .void

theorem Values.tag {left right : Value} (values : correspondence.Values left right) :
    left.tag = right.tag := by
  cases values <;> rfl

theorem Values.isVoid {left right : Value} (values : correspondence.Values left right) :
    left.isVoid = right.isVoid := by
  cases values <;> rfl

theorem Values.key? {left right : Value} (values : correspondence.Values left right) :
    left.key? = right.key? := by
  cases values <;> rfl

theorem Values.toArgument {left right : Value} (values : correspondence.Values left right) :
    left.toArgument = right.toArgument := by
  cases values <;> rfl

theorem Values.ofJson (json : Json) :
    correspondence.Values (Value.ofJson json) (Value.ofJson json) := by
  cases json with
  | string text => exact .string text
  | number value => exact .number value.toFloat
  | bool truth => exact .bool truth
  | _ => exact .void

/-- What is found in both runs corresponds, and a missing value is void in both. -/
theorem Values.getD {left right : Option Value}
    (found : Option.Rel correspondence.Values left right) :
    correspondence.Values (left.getD .void) (right.getD .void) := by
  cases found with
  | some values => exact values
  | none => exact .void

/-- A value corresponds to itself if its cells do. -/
theorem Values.self (sameSerials : ∀ serial, correspondence.serials serial serial)
    (sameLabels : correspondence.relabel = id) {value : Value}
    (within : value.Within (fun cell => correspondence.cells cell cell)
      (fun cell => correspondence.cells cell cell)) :
    correspondence.Values value value := by
  cases value with
  | number value => exact .number value
  | string text => exact .string text
  | bool truth => exact .bool truth
  | struct cell => exact .struct within
  | function callee => exact .function callee.name callee.code (sameSerials callee.serial)
  | action block =>
      have scopes : Option.Rel correspondence.cells block.scope block.scope := by
        cases captured : block.scope with
        | none => exact .none
        | some cell => exact .some (within cell captured)
      have same := Values.action block.label block.body scopes
      rwa [sameLabels, twin_eq_id sameLabels, List.map_id, id] at same
  | void => exact .void
  | error text => exact .error text

theorem Tables.self (sameSerials : ∀ serial, correspondence.serials serial serial)
    (sameLabels : correspondence.relabel = id) {table : Table Value}
    (within : ∀ value ∈ table.values,
      value.Within (fun cell => correspondence.cells cell cell)
        (fun cell => correspondence.cells cell cell)) :
    correspondence.Tables table table := by
  refine List.forall₂_same.mpr fun entry member => ⟨rfl, ?_⟩
  exact Values.self sameSerials sameLabels (within entry.2 (List.mem_map_of_mem member))

namespace Heaps

variable {left right : Heap} {cell other : Cell}

/-- A cell is allocated in one run if its partner is in the other. -/
theorem lt_size_iff (heaps : correspondence.Heaps left right)
    (cells : correspondence.cells cell other) : cell < left.size ↔ other < right.size := by
  constructor
  · intro present
    by_contra beyond
    obtain ⟨offset, isOther⟩ := Nat.exists_eq_add_of_le (Nat.le_of_not_lt beyond)
    have same : cell = left.size + offset :=
      correspondence.biUnique_cells.1 cells (isOther ▸ heaps.frontier offset)
    exact absurd present (same ▸ Nat.not_lt.mpr (Nat.le_add_right _ _))
  · intro present
    by_contra beyond
    obtain ⟨offset, isCell⟩ := Nat.exists_eq_add_of_le (Nat.le_of_not_lt beyond)
    have same : other = right.size + offset :=
      correspondence.biUnique_cells.2 cells (isCell ▸ heaps.frontier offset)
    exact absurd present (same ▸ Nat.not_lt.mpr (Nat.le_add_right _ _))

theorem get? (heaps : correspondence.Heaps left right)
    (cells : correspondence.cells cell other) (key : String) :
    Option.Rel correspondence.Values (left.get? cell key) (right.get? other key) :=
  (heaps.tables cells).get? key

theorem field (heaps : correspondence.Heaps left right) {value value' : Value}
    (values : correspondence.Values value value') (key : String) :
    correspondence.Values (left.field value key) (right.field value' key) := by
  cases values with
  | struct cells => exact Values.getD (heaps.get? cells key)
  | _ => exact .void

theorem next (heaps : correspondence.Heaps left right) :
    correspondence.cells left.size right.size :=
  heaps.frontier 0

theorem alloc (heaps : correspondence.Heaps left right) {table table' : Table Value}
    (tables : correspondence.Tables table table') :
    correspondence.Heaps (left.alloc table).2 (right.alloc table').2 := by
  constructor
  · intro cell other cells
    by_cases new : cell = left.size
    · have newOther : other = right.size :=
        correspondence.biUnique_cells.2 (new ▸ cells) heaps.next
      rw [new, newOther, Heap.read_alloc_self, Heap.read_alloc_self]
      exact tables
    · have oldOther : other ≠ right.size :=
        fun same => new (correspondence.biUnique_cells.1 (same ▸ cells) heaps.next)
      rw [left.read_alloc_of_ne table new, right.read_alloc_of_ne table' oldOther]
      exact heaps.tables cells
  · intro offset
    have shifted := heaps.frontier (1 + offset)
    rw [Heap.size_alloc, Heap.size_alloc, Nat.add_assoc, Nat.add_assoc]
    exact shifted

theorem write (heaps : correspondence.Heaps left right)
    (cells : correspondence.cells cell other) {table table' : Table Value}
    (tables : correspondence.Tables table table') :
    correspondence.Heaps (left.write cell table) (right.write other table') := by
  constructor
  · intro read read' cellsRead
    by_cases same : cell = read
    · have sameOther : other = read' :=
        correspondence.biUnique_cells.2 cells (same ▸ cellsRead)
      subst same sameOther
      by_cases present : cell < left.size
      · rw [left.read_write_self table present,
          right.read_write_self table' ((heaps.lt_size_iff cells).mp present)]
        exact tables
      · have beyond : right.size ≤ other :=
          Nat.le_of_not_lt fun below => present ((heaps.lt_size_iff cells).mpr below)
        rw [left.write_of_size_le table (Nat.le_of_not_lt present),
          right.write_of_size_le table' beyond]
        exact heaps.tables cells
    · have differentOther : other ≠ read' :=
        fun isOther => same (correspondence.biUnique_cells.1 cells (isOther ▸ cellsRead))
      rw [left.read_write_of_ne table same, right.read_write_of_ne table' differentOther]
      exact heaps.tables cellsRead
  · intro offset
    rw [Heap.size_write, Heap.size_write]
    exact heaps.frontier offset

theorem insert (heaps : correspondence.Heaps left right)
    (cells : correspondence.cells cell other) (key : String) {value value' : Value}
    (values : correspondence.Values value value') :
    correspondence.Heaps (left.insert cell key value) (right.insert other key value') :=
  heaps.write cells ((heaps.tables cells).insert key values)

end Heaps

/-! ## Steps that agree -/

theorem rel_map {α β γ δ : Type} {related : α → β → Prop} {relatedNext : γ → δ → Prop}
    {left : Option α} {right : Option β} {change : α → γ} {changeOther : β → δ}
    (rel : Option.Rel related left right)
    (changes : ∀ value other, related value other →
      relatedNext (change value) (changeOther other)) :
    Option.Rel relatedNext (left.map change) (right.map changeOther) := by
  cases rel with
  | none => exact .none
  | some values => exact .some (changes _ _ values)

theorem rel_flip {α β : Type} {related : α → β → Prop} {flipped : β → α → Prop}
    {left : Option α} {right : Option β} (rel : Option.Rel related left right)
    (flips : ∀ value other, related value other → flipped other value) :
    Option.Rel flipped right left := by
  cases rel with
  | none => exact .none
  | some values => exact .some (flips _ _ values)

theorem exists_of_rel_some {α β : Type} {related : α → β → Prop} {value : α} {right : Option β}
    (rel : Option.Rel related (some value) right) :
    ∃ other, right = some other ∧ related value other := by
  cases rel with
  | some same => exact ⟨_, rfl, same⟩

theorem eq_none_of_rel_none {α β : Type} {related : α → β → Prop} {right : Option β}
    (rel : Option.Rel related none right) : right = none := by
  cases rel
  rfl

namespace Agree

variable {α β γ δ : Type} {related : α → β → Prop} {relatedNext : γ → δ → Prop}

theorem pure {value : α} {other : β} (values : related value other) :
    correspondence.Agree related (Pure.pure value) (Pure.pure other) :=
  fun _ _ states => .some ⟨.value values, states⟩

theorem throw (error : Error) :
    correspondence.Agree related (throw error : Run α) (throw error : Run β) :=
  fun _ _ states => .some ⟨.error error, states⟩

theorem fail (reason : Reason) :
    correspondence.Agree related (Run.fail reason : Run α) (Run.fail reason : Run β) :=
  throw (Error.ofReason reason)

theorem unfinished :
    correspondence.Agree related (Run.unfinished : Run α) (Run.unfinished : Run β) :=
  fun _ _ _ => .none

/-- Sequences agree if their first steps do, and their second ones after related values. -/
theorem bind {left : Run α} {right : Run β} {next : α → Run γ} {nextOther : β → Run δ}
    (first : correspondence.Agree related left right)
    (second : ∀ {value : α} {other : β}, related value other →
      correspondence.Agree relatedNext (next value) (nextOther other)) :
    correspondence.Agree relatedNext (left >>= next) (right >>= nextOther) := by
  intro state other states
  have ends := first states
  rw [Run.from?_bind, Run.from?_bind]
  generalize left.from? state = ended at ends ⊢
  generalize right.from? other = ended' at ends ⊢
  cases ends with
  | none => exact .none
  | @some reached reached' agree =>
      obtain ⟨outcome, after⟩ := reached
      obtain ⟨outcome', after'⟩ := reached'
      obtain ⟨outcomes, statesAfter⟩ := agree
      cases outcomes with
      | value values => exact second values statesAfter
      | error error => exact .some ⟨.error error, statesAfter⟩

theorem map {left : Run α} {right : Run β} {change : α → γ} {changeOther : β → δ}
    (agree : correspondence.Agree related left right)
    (changes : ∀ {value : α} {other : β}, related value other →
      relatedNext (change value) (changeOther other)) :
    correspondence.Agree relatedNext (change <$> left) (changeOther <$> right) := by
  rw [map_eq_pure_bind, map_eq_pure_bind]
  exact agree.bind fun values => pure (changes values)

/-- Changing the outcomes of steps that agree leaves steps that agree. -/
private theorem of_map {left : Run α} {right : Run β} {left' : Run γ} {right' : Run δ}
    {change : Except Error α → Except Error γ} {changeOther : Except Error β → Except Error δ}
    (agree : correspondence.Agree related left right)
    (isLeft : ∀ state, left'.from? state =
      (left.from? state).map fun (outcome, after) => (change outcome, after))
    (isRight : ∀ state, right'.from? state =
      (right.from? state).map fun (outcome, after) => (changeOther outcome, after))
    (changes : ∀ {outcome : Except Error α} {other : Except Error β},
      Outcomes related outcome other →
      Outcomes relatedNext (change outcome) (changeOther other)) :
    correspondence.Agree relatedNext left' right' := by
  intro state other states
  rw [isLeft, isRight]
  exact rel_map (agree states) fun _ _ ended => ⟨changes ended.1, ended.2⟩

/-- The outcomes of steps that agree are related as values. -/
theorem attempt {left : Run α} {right : Run β}
    (agree : correspondence.Agree related left right) :
    correspondence.Agree (Outcomes related) (Run.attempt left) (Run.attempt right) :=
  agree.of_map left.from?_attempt right.from?_attempt fun outcomes => .value outcomes

theorem tagged {left : Run α} {right : Run β} (operator : Operator)
    (agree : correspondence.Agree related left right) :
    correspondence.Agree related (Run.tagged operator left) (Run.tagged operator right) := by
  apply agree.of_map (Run.from?_tagged operator left) (Run.from?_tagged operator right)
  intro outcome other outcomes
  cases outcomes with
  | value values => exact .value values
  | error error => exact .error (error.tag operator)

theorem ofExcept {outcome : Except Error α} {other : Except Error β}
    (outcomes : Outcomes related outcome other) :
    correspondence.Agree related (Run.ofExcept outcome) (Run.ofExcept other) := by
  cases outcomes with
  | value values => exact pure values
  | error error => exact throw error

theorem ofCollaborator (outcome : Except Collaborator α) :
    correspondence.Agree Eq (Run.ofCollaborator outcome) (Run.ofCollaborator outcome) := by
  cases outcome with
  | ok value => exact pure rfl
  | error cause => exact fail (.collaborator cause)

/-- Steps for items in order agree if the step for each pair of items does. -/
theorem mapM {items : List α} {others : List β} {step : α → Run γ} {stepOther : β → Run δ}
    (inOrder : List.Forall₂ related items others)
    (steps : ∀ {item : α} {other : β}, related item other →
      correspondence.Agree relatedNext (step item) (stepOther other)) :
    correspondence.Agree (List.Forall₂ relatedNext) (items.mapM step)
      (others.mapM stepOther) := by
  induction inOrder with
  | nil => exact pure .nil
  | cons same _ inductionHypothesis =>
      rw [List.mapM_cons, List.mapM_cons]
      apply (steps same).bind
      intro value other values
      apply inductionHypothesis.bind
      intro rest others rests
      exact pure (.cons values rests)

/-! ## Single steps -/

theorem heap : correspondence.Agree correspondence.Heaps Run.heap Run.heap :=
  fun _ _ states => .some ⟨.value states.heaps, states⟩

theorem read {cell other : Cell} (cells : correspondence.cells cell other) :
    correspondence.Agree correspondence.Tables (Run.read cell) (Run.read other) :=
  heap.bind fun heaps => pure (heaps.tables cells)

theorem lookup {scope other : Cell} (scopes : correspondence.cells scope other)
    (name : String) :
    correspondence.Agree (Option.Rel correspondence.Values) (Run.lookup scope name)
      (Run.lookup other name) :=
  heap.bind fun heaps => pure (heaps.get? scopes name)

theorem alloc {table other : Table Value} (tables : correspondence.Tables table other) :
    correspondence.Agree correspondence.cells (Run.alloc table) (Run.alloc other) :=
  fun _ _ states =>
    .some ⟨.value states.heaps.next,
      ⟨states.heaps.alloc tables, states.supply, states.printed⟩⟩

theorem modifyHeap {change changeOther : Heap → Heap}
    (changes : ∀ {left right : Heap}, correspondence.Heaps left right →
      correspondence.Heaps (change left) (changeOther right)) :
    correspondence.Agree Eq (Run.modifyHeap change) (Run.modifyHeap changeOther) :=
  fun _ _ states => .some ⟨.value rfl, ⟨changes states.heaps, states.supply, states.printed⟩⟩

theorem bindName {scope other : Cell} (scopes : correspondence.cells scope other)
    (name : String) {value value' : Value} (values : correspondence.Values value value') :
    correspondence.Agree Eq (Run.bindName scope name value)
      (Run.bindName other name value') :=
  modifyHeap fun heaps => heaps.insert scopes name values

theorem fresh : correspondence.Agree correspondence.serials Run.fresh Run.fresh := by
  intro state other states
  have shifted : ∀ offset,
      correspondence.serials (state.supply + 1 + offset) (other.supply + 1 + offset) := by
    intro offset
    rw [Nat.add_assoc, Nat.add_assoc]
    exact states.supply (1 + offset)
  exact .some ⟨.value (states.supply 0), ⟨states.heaps, shifted, states.printed⟩⟩

theorem printLine (line : String) :
    correspondence.Agree Eq (Run.printLine line) (Run.printLine line) := by
  intro state other states
  obtain ⟨text, isLeft, isRight⟩ := states.printed
  have printed :
      state.printed ++ line ++ "\n" = correspondence.leftText ++ (text ++ line ++ "\n") ∧
        other.printed ++ line ++ "\n" = correspondence.rightText ++ (text ++ line ++ "\n") := by
    rw [isLeft, isRight]
    simp only [String.append_assoc, and_self]
  exact .some ⟨.value rfl, ⟨states.heaps, states.supply, _, printed⟩⟩

end Agree

end Correspondence

end Tabula
