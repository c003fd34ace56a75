import Tabula.Proofs.Correspondence.Views
import Tabula.Proofs.Loading

/-!
# Evaluation respects every correspondence

One lemma per rule says that the rule does the same with twins in scopes that correspond if the
evaluator that it is given does. From them, `Correspondence.respects_evaluate` follows by induction
on the depth of nesting.

The two runs of an import draw different stamps where their supplies differ, so the loader has to
answer stamps that correspond with twins.
-/

namespace Tabula

namespace Correspondence

/-- For stamps that correspond the same is loaded, but for the labels. -/
def LoadsAlike (correspondence : Correspondence) (loader : Loader) : Prop :=
  ∀ ⦃stamp other : Nat⦄ (path : String), correspondence.serials stamp other →
    loader other path = (loader stamp path).map (List.map correspondence.twin)

variable {correspondence : Correspondence} {eval : Evaluator} {scope other : Cell}

/-- Without new labels, every loader answers alike if stamps that correspond are the same. -/
theorem loadsAlike_of_same {loader : Loader} (sameLabels : correspondence.relabel = id)
    (sameSerials : ∀ {stamp other : Nat}, correspondence.serials stamp other → stamp = other) :
    correspondence.LoadsAlike loader := by
  intro stamp other path serials
  rw [sameSerials serials, twin_eq_id sameLabels, List.map_id_fun, Except.map_id]
  rfl

/-- Both values of one run correspond to those of the other. -/
def Both (correspondence : Correspondence) (values values' : Value × Value) : Prop :=
  correspondence.Values values.1 values'.1 ∧ correspondence.Values values.2 values'.2

/-! ## Operands -/

theorem both_agrees (respects : correspondence.Respects eval)
    (scopes : correspondence.cells scope other) (left right : Node) :
    correspondence.Agree correspondence.Both (Rule.both eval scope left right)
      (Rule.both eval other (correspondence.twin left) (correspondence.twin right)) := by
  apply (respects left scopes).attempt.bind
  intro leftOutcome leftOutcome' lefts
  apply (respects right scopes).attempt.bind
  intro rightOutcome rightOutcome' rights
  apply (Agree.ofExcept lefts).bind
  intro x x' firsts
  apply (Agree.ofExcept rights).bind
  intro y y' seconds
  exact Agree.pure ⟨firsts, seconds⟩

section ForAll

variable {α β γ δ : Type} {related : α → β → Prop} {relatedNext : γ → δ → Prop}

theorem forAll_agrees {items : List α} {others : List β} {step : α → Run γ}
    {stepOther : β → Run δ} (inOrder : List.Forall₂ related items others)
    (steps : ∀ {item : α} {other : β}, related item other →
      correspondence.Agree relatedNext (step item) (stepOther other)) :
    correspondence.Agree (List.Forall₂ relatedNext) (Rule.forAll step items)
      (Rule.forAll stepOther others) := by
  have attempts : correspondence.Agree (List.Forall₂ (Outcomes relatedNext))
      (items.mapM fun item => Run.attempt (step item))
      (others.mapM fun other => Run.attempt (stepOther other)) :=
    Agree.mapM inOrder fun same => (steps same).attempt
  apply attempts.bind
  intro outcomes outcomes' alike
  exact Agree.mapM alike Agree.ofExcept

end ForAll

theorem entry_agrees (respects : correspondence.Respects eval)
    (scopes : correspondence.cells scope other) (node : Node) :
    correspondence.Agree correspondence.Values (Rule.entry eval scope node)
      (Rule.entry eval other (correspondence.twin node)) := by
  cases node with
  | atom name => exact Agree.pure (.string name)
  | expression applied left right => exact respects (.expression applied left right) scopes
  | operator symbol => exact respects (.operator symbol) scopes
  | accessor name => exact respects (.accessor name) scopes
  | constant value => exact respects (.constant value) scopes
  | action label body => exact respects (.action label body) scopes
  | template entries => exact respects (.template entries) scopes

/-- The entries of a template are twins of those of its twin, under the same keys. -/
theorem forall₂_twin_entries (template : List (String × Node)) :
    List.Forall₂ (fun node node' => node' = correspondence.twin node) (template.map Prod.snd)
      ((template.map fun entry => (entry.1, correspondence.twin entry.2)).map Prod.snd) := by
  induction template with
  | nil => exact .nil
  | cons entry rest inductionHypothesis => exact .cons rfl inductionHypothesis

theorem materialize_agrees (respects : correspondence.Respects eval)
    (scopes : correspondence.cells scope other) (template : List (String × Node)) :
    correspondence.Agree correspondence.Tables (Rule.materialize eval scope template)
      (Rule.materialize eval other
        (template.map fun entry => (entry.1, correspondence.twin entry.2))) := by
  have entries : correspondence.Agree (List.Forall₂ correspondence.Values)
      (Rule.forAll (Rule.entry eval scope) (template.map Prod.snd))
      (Rule.forAll (Rule.entry eval other)
        ((template.map fun entry => (entry.1, correspondence.twin entry.2)).map Prod.snd)) := by
    apply forAll_agrees (forall₂_twin_entries template)
    rintro node _ rfl
    exact entry_agrees respects scopes node
  have sameKeys :
      (template.map fun entry => (entry.1, correspondence.twin entry.2)).map Prod.fst =
        template.map Prod.fst := by
    simp only [List.map_map, Function.comp_def]
  rw [Rule.materialize, Rule.materialize, sameKeys]
  apply entries.bind
  intro values values' inOrder
  have empty : Table.Alike correspondence.Values [] [] := .nil
  exact Agree.pure (empty.overlay (Table.Alike.zip _ inOrder))

theorem statements_agrees (respects : correspondence.Respects eval)
    (scopes : correspondence.cells scope other) (body : List Node) :
    correspondence.Agree Eq (Rule.statements eval scope body)
      (Rule.statements eval other (body.map correspondence.twin)) := by
  induction body with
  | nil => exact Agree.pure rfl
  | cons node rest inductionHypothesis =>
      have first : correspondence.Agree Eq (discard (eval scope node))
          (discard (eval other (correspondence.twin node))) :=
        (respects node scopes).map fun _ => rfl
      exact first.bind fun _ => inductionHypothesis

/-- Blocks that run on tables that correspond run in new scopes that correspond. -/
theorem block_agrees (respects : correspondence.Respects eval) (body : List Node)
    {bindings bindings' : Table Value} (tables : correspondence.Tables bindings bindings') :
    correspondence.Agree correspondence.cells (Rule.block eval body bindings)
      (Rule.block eval (body.map correspondence.twin) bindings') := by
  apply (Agree.alloc tables).bind
  intro inner inner' inners
  apply (statements_agrees respects inners body).bind
  intro _ _ _
  exact Agree.pure inners

theorem returned_agrees (scopes : correspondence.cells scope other) :
    correspondence.Agree correspondence.Values (Rule.returned scope) (Rule.returned other) := by
  apply (Agree.lookup scopes Reserved.result).bind
  intro left right found
  exact Agree.pure (Values.getD found)

/-- The two values are a block and its twin, captured in scopes that correspond. -/
def Actions (correspondence : Correspondence) (action action' : Action) : Prop :=
  correspondence.Values (.action action) (.action action')

theorem Actions.body {action action' : Action}
    (actions : correspondence.Actions action action') :
    action'.body = action.body.map correspondence.twin := by
  cases actions
  rfl

theorem captured_agrees {action action' : Action}
    (actions : correspondence.Values (.action action) (.action action')) :
    correspondence.Agree correspondence.Tables (Rule.captured action)
      (Rule.captured action') := by
  cases actions with
  | action label body scopes =>
      cases scopes with
      | none => exact Agree.pure .nil
      | some cells => exact Agree.read cells

theorem wantAction_agrees (operator : Operator) {value value' : Value}
    (values : correspondence.Values value value') :
    correspondence.Agree correspondence.Actions (Rule.wantAction operator value)
      (Rule.wantAction operator value') := by
  cases values with
  | action label body scopes => exact Agree.pure (.action label body scopes)
  | _ => exact Agree.fail _

/-! ## Operations -/

theorem arithmetic_agrees (respects : correspondence.Respects eval)
    (scopes : correspondence.cells scope other) (operator : Operator) (left right : Node) :
    correspondence.Agree correspondence.Values (Rule.arithmetic eval scope operator left right)
      (Rule.arithmetic eval other operator (correspondence.twin left)
        (correspondence.twin right)) := by
  apply (both_agrees respects scopes left right).bind
  rintro ⟨x, y⟩ ⟨x', y'⟩ ⟨firsts, seconds⟩
  dsimp only at firsts seconds ⊢
  split
  · cases firsts
    cases seconds
    exact Agree.pure (.number _)
  · rename_i notNumber
    cases firsts
    cases seconds with
    | number y => exact absurd rfl (notNumber y)
    | _ => exact Agree.fail _
  · cases firsts
    cases seconds
    exact Agree.pure (.number _)
  · rename_i noAddition
    cases firsts
    cases seconds
    split
    · contradiction
    · contradiction
    · contradiction
    · rename_i sameX sameY
      cases sameX
      cases sameY
      exact Agree.pure (.number _)
    · rename_i noNumbers _ _
      exact (noNumbers _ _ rfl rfl).elim
  · rename_i noUnary noNumbers _ _
    have noUnary' : operator = .subtract → x' = .void → False := by
      rintro isSubtract rfl
      cases firsts
      exact noUnary isSubtract rfl
    have noNumbers' : ∀ number number', x' = .number number → y' = .number number' → False := by
      rintro number number' rfl rfl
      cases firsts
      cases seconds
      exact noNumbers _ _ rfl rfl
    rw [firsts.tag, seconds.tag]
    split
    · exact (noUnary' rfl rfl).elim
    · exact (noUnary' rfl rfl).elim
    · exact (noNumbers' _ _ rfl rfl).elim
    · exact (noNumbers' _ _ rfl rfl).elim
    · exact Agree.fail _

theorem equality_agrees (respects : correspondence.Respects eval)
    (scopes : correspondence.cells scope other) (operator : Operator) (left right : Node) :
    correspondence.Agree correspondence.Values (Rule.equality eval scope operator left right)
      (Rule.equality eval other operator (correspondence.twin left)
        (correspondence.twin right)) := by
  apply (both_agrees respects scopes left right).bind
  rintro ⟨x, y⟩ ⟨x', y'⟩ ⟨firsts, seconds⟩
  dsimp only at firsts seconds ⊢
  rw [firsts.tag, seconds.tag]
  split
  · apply Agree.heap.bind
    intro heap heap' heaps
    rw [heaps.equal? firsts seconds]
    split
    · exact Agree.pure (.bool _)
    · exact Agree.unfinished
  · exact Agree.fail _

theorem fieldUnder_agrees {target target' key key' : Value}
    (targets : correspondence.Values target target') (keys : correspondence.Values key key') :
    correspondence.Agree correspondence.Values (Rule.fieldUnder target key)
      (Rule.fieldUnder target' key') := by
  rw [Rule.fieldUnder, Rule.fieldUnder, keys.key?]
  split
  · apply Agree.heap.bind
    intro heap heap' heaps
    exact Agree.pure (heaps.field targets _)
  · exact Agree.pure .void

theorem field_agrees (respects : correspondence.Respects eval)
    (scopes : correspondence.cells scope other) (left right : Node) :
    correspondence.Agree correspondence.Values (Rule.field eval scope left right)
      (Rule.field eval other (correspondence.twin left) (correspondence.twin right)) := by
  cases right with
  | atom key =>
      apply (respects left scopes).bind
      intro target target' targets
      apply Agree.heap.bind
      intro heap heap' heaps
      exact Agree.pure (heaps.field targets key)
  | accessor name =>
      apply (both_agrees respects scopes left (.accessor name)).bind
      intro values values' both
      exact fieldUnder_agrees both.1 both.2
  | _ => exact Agree.fail _

theorem keyRead_agrees (respects : correspondence.Respects eval)
    (scopes : correspondence.cells scope other) (left right : Node) :
    correspondence.Agree correspondence.Values (Rule.keyRead eval scope left right)
      (Rule.keyRead eval other (correspondence.twin left) (correspondence.twin right)) := by
  apply (both_agrees respects scopes left right).bind
  intro values values' both
  exact fieldUnder_agrees both.2 both.1

theorem capture_agrees (respects : correspondence.Respects eval)
    (scopes : correspondence.cells scope other) (left right : Node) :
    correspondence.Agree correspondence.Values (Rule.capture eval scope left right)
      (Rule.capture eval other (correspondence.twin left) (correspondence.twin right)) := by
  apply (both_agrees respects scopes left right).bind
  intro values values' both
  apply (wantAction_agrees .capture both.2).bind
  intro action action' actions
  cases actions with
  | action label body _ => exact Agree.pure (.action label body (.some scopes))

theorem construct_agrees (right : Node) :
    correspondence.Agree correspondence.Values (Rule.construct right)
      (Rule.construct (correspondence.twin right)) := by
  rw [Rule.construct, Rule.construct, twin, Node.name?_relabelled, Node.kind_relabelled]
  split
  · exact (Agree.alloc .nil).map .struct
  · exact Agree.fail _
  · exact Agree.fail _

/-! ## Writing -/

theorem bind_agrees (respects : correspondence.Respects eval)
    (scopes : correspondence.cells scope other) (left right : Node) :
    correspondence.Agree correspondence.Values (Rule.bind eval scope left right)
      (Rule.bind eval other (correspondence.twin left) (correspondence.twin right)) := by
  cases left with
  | atom name =>
      apply (respects right scopes).bind
      intro value value' values
      exact (Agree.bindName scopes name values).bind fun _ => Agree.pure .void
  | _ => exact Agree.fail _

theorem append_agrees (respects : correspondence.Respects eval)
    (scopes : correspondence.cells scope other) (left right : Node) :
    correspondence.Agree correspondence.Values (Rule.append eval scope left right)
      (Rule.append eval other (correspondence.twin left) (correspondence.twin right)) := by
  apply (both_agrees respects scopes left right).bind
  rintro ⟨target, value⟩ ⟨target', value'⟩ ⟨targets, values⟩
  cases targets with
  | struct cells =>
      exact (Agree.modifyHeap fun heaps => heaps.push cells values).bind
        fun _ => Agree.pure .void
  | _ => exact Agree.fail _

theorem stepKey_agrees (respects : correspondence.Respects eval)
    (scopes : correspondence.cells scope other) (node : Node) :
    correspondence.Agree Eq (Rule.stepKey eval scope node)
      (Rule.stepKey eval other (correspondence.twin node)) := by
  cases node with
  | atom name => exact Agree.pure rfl
  | accessor name =>
      apply (respects (.accessor name) scopes).bind
      intro value value' values
      rw [values.key?, values.tag]
      split
      · exact Agree.pure rfl
      · exact Agree.fail _
  | _ => exact Agree.fail _

theorem targetFrom_agrees (respects : correspondence.Respects eval)
    (scopes : correspondence.cells scope other) (keys : List String) (node : Node) :
    correspondence.Agree Eq (Rule.targetFrom eval scope keys node)
      (Rule.targetFrom eval other keys (correspondence.twin node)) := by
  cases node with
  | expression applied left right =>
      cases applied with
      | operator symbol =>
          simp only [twin, Node.relabelled, Rule.targetFrom]
          split
          · apply (stepKey_agrees respects scopes right).bind
            rintro key _ rfl
            exact targetFrom_agrees respects scopes (key :: keys) left
          · exact Agree.fail _
      | _ => exact Agree.fail _
  | atom root =>
      simp only [twin, Node.relabelled, Rule.targetFrom]
      split
      · exact Agree.fail _
      · exact Agree.pure rfl
  | _ => exact Agree.fail _

theorem assign_agrees (respects : correspondence.Respects eval)
    (scopes : correspondence.cells scope other) (left right : Node) :
    correspondence.Agree correspondence.Values (Rule.assign eval scope left right)
      (Rule.assign eval other (correspondence.twin left) (correspondence.twin right)) := by
  apply (respects right scopes).bind
  intro value value' values
  apply (targetFrom_agrees respects scopes [] left).bind
  rintro target _ rfl
  exact (Agree.modifyHeap fun heaps => heaps.assign scopes target values).bind
    fun _ => Agree.pure .void

theorem result_agrees (respects : correspondence.Respects eval)
    (scopes : correspondence.cells scope other) (right : Node) :
    correspondence.Agree correspondence.Values (Rule.result eval scope right)
      (Rule.result eval other (correspondence.twin right)) := by
  apply (respects right scopes).bind
  intro value value' values
  exact (Agree.bindName scopes Reserved.result values).bind fun _ => Agree.pure .void

/-! ## Blocks -/

mutual

/-- The values of an answer correspond if the arguments do. -/
theorem toValue_agrees {arguments arguments' : List Value}
    (inOrder : List.Forall₂ correspondence.Values arguments arguments') (reply : Reply) :
    correspondence.Agree correspondence.Values (reply.toValue arguments)
      (reply.toValue arguments') := by
  cases reply with
  | number value => exact Agree.pure (.number value)
  | string text => exact Agree.pure (.string text)
  | bool truth => exact Agree.pure (.bool truth)
  | void => exact Agree.pure .void
  | error text => exact Agree.pure (.error text)
  | argument position =>
      have found : Option.Rel correspondence.Values arguments[position]?
          arguments'[position]? := by
        induction inOrder generalizing position with
        | nil => exact .none
        | cons first _ inductionHypothesis =>
            cases position with
            | zero => exact .some first
            | succ position => exact inductionHypothesis position
      rw [Reply.toValue, Reply.toValue, List.getD_eq_getElem?_getD, List.getD_eq_getElem?_getD]
      exact Agree.pure (Values.getD found)
  | sequence elements =>
      rw [Reply.toValue, Reply.toValue]
      apply (toValues_agrees inOrder elements).bind
      intro values values' same
      apply (Agree.alloc (Table.Alike.sequence same)).bind
      intro cell cell' cells
      exact Agree.pure (.struct cells)

theorem toValues_agrees {arguments arguments' : List Value}
    (inOrder : List.Forall₂ correspondence.Values arguments arguments') (replies : List Reply) :
    correspondence.Agree (List.Forall₂ correspondence.Values)
      (Reply.toValues arguments replies) (Reply.toValues arguments' replies) := by
  cases replies with
  | nil => exact Agree.pure .nil
  | cons reply rest =>
      rw [Reply.toValues, Reply.toValues]
      apply (toValue_agrees inOrder reply).bind
      intro value value' first
      apply (toValues_agrees inOrder rest).bind
      intro values values' others
      exact Agree.pure (.cons first others)

end

/-- Functions with one code, called on arguments that correspond, see the same: trees of arguments
in which no cell is left, or the arguments without what lies behind their cells. -/
theorem functionCall_agrees {function function' : Function}
    (sameCode : function.code = function'.code) {arguments arguments' : List Value}
    (inOrder : List.Forall₂ correspondence.Values arguments arguments') :
    correspondence.Agree correspondence.Values (function.call arguments)
      (function'.call arguments') := by
  rw [Function.call, Function.call, sameCode]
  split
  · apply Agree.heap.bind
    intro heap heap' heaps
    have sameTrees : arguments.map heap.toJson = arguments'.map heap'.toJson := by
      induction inOrder with
      | nil => rfl
      | cons first _ inductionHypothesis =>
          rw [List.map_cons, List.map_cons, heaps.toJson first, inductionHypothesis]
    rw [sameTrees]
    split
    · exact Agree.pure (Values.ofJson _)
    · exact Agree.pure (.error _)
  · have sameArguments : arguments.map Value.toArgument = arguments'.map Value.toArgument := by
      clear sameCode
      induction inOrder with
      | nil => rfl
      | cons first _ inductionHypothesis =>
          rw [List.map_cons, List.map_cons, first.toArgument, inductionHypothesis]
    rw [sameArguments]
    split
    · exact toValue_agrees inOrder _
    · exact Agree.fail _

theorem positional_agrees (respects : correspondence.Respects eval)
    (scopes : correspondence.cells scope other) (right : Node) :
    correspondence.Agree (List.Forall₂ correspondence.Values)
      (Rule.positional eval scope right)
      (Rule.positional eval other (correspondence.twin right)) := by
  cases right with
  | template entries =>
      rw [twin_template]
      apply forAll_agrees (forall₂_twin_entries entries)
      rintro node _ rfl
      exact respects node scopes
  | _ =>
      apply (respects _ scopes).bind
      intro value value' values
      cases values with
      | struct cells => exact (Agree.read cells).bind fun tables => Agree.pure tables.values
      | void => exact Agree.pure .nil
      | number value => exact Agree.pure (.cons (.number value) .nil)
      | string text => exact Agree.pure (.cons (.string text) .nil)
      | bool truth => exact Agree.pure (.cons (.bool truth) .nil)
      | function name code serials => exact Agree.pure (.cons (.function name code serials) .nil)
      | action label body scopes => exact Agree.pure (.cons (.action label body scopes) .nil)
      | error text => exact Agree.pure (.cons (.error text) .nil)

theorem ofValue_agrees {value value' : Value} (values : correspondence.Values value value') :
    correspondence.Agree correspondence.Tables (Rule.named.ofValue value)
      (Rule.named.ofValue value') := by
  cases values with
  | struct cells => exact Agree.read cells
  | void => exact Agree.pure .nil
  | _ => exact Agree.fail _

theorem named_agrees (respects : correspondence.Respects eval)
    (scopes : correspondence.cells scope other) (right : Node) :
    correspondence.Agree correspondence.Tables (Rule.named eval scope right)
      (Rule.named eval other (correspondence.twin right)) := by
  have evaluated : ∀ node : Node,
      correspondence.Agree correspondence.Tables (eval scope node >>= Rule.named.ofValue)
        (eval other (correspondence.twin node) >>= Rule.named.ofValue) :=
    fun node => (respects node scopes).bind ofValue_agrees
  cases right with
  | template entries =>
      rw [twin_template]
      exact materialize_agrees respects scopes entries
  | atom name =>
      apply (Agree.lookup scopes name).bind
      intro found found' same
      cases same with
      | none => exact Agree.pure .nil
      | some _ => exact evaluated (.atom name)
  | _ => exact evaluated _

theorem invoke_agrees (respects : correspondence.Respects eval)
    (scopes : correspondence.cells scope other) {action action' : Action}
    (actions : correspondence.Actions action action') {bindings bindings' : Table Value}
    (tables : correspondence.Tables bindings bindings') :
    correspondence.Agree correspondence.Values (Rule.invoke eval scope action bindings)
      (Rule.invoke eval other action' bindings') := by
  apply (captured_agrees actions).bind
  intro closure closure' closures
  have seeds :
      correspondence.Tables
        ((bindings.overlay (closure.filter fun entry => entry.1 ≠ Reserved.result)).insert
          Reserved.caller (.struct scope))
        ((bindings'.overlay (closure'.filter fun entry => entry.1 ≠ Reserved.result)).insert
          Reserved.caller (.struct other)) :=
    (tables.overlay (closures.erased Reserved.result)).insert Reserved.caller (.struct scopes)
  rw [actions.body]
  exact (block_agrees respects action.body seeds).bind returned_agrees

theorem call_agrees (respects : correspondence.Respects eval)
    (scopes : correspondence.cells scope other) (left right : Node) :
    correspondence.Agree correspondence.Values (Rule.call eval scope left right)
      (Rule.call eval other (correspondence.twin left) (correspondence.twin right)) := by
  apply (respects left scopes).bind
  intro callee callee' callees
  cases callees with
  | function name code serials =>
      exact (positional_agrees respects scopes right).bind (functionCall_agrees rfl)
  | action label body captured =>
      exact (named_agrees respects scopes right).bind
        (invoke_agrees respects scopes (.action label body captured))
  | _ => exact Agree.fail _

theorem branch_agrees (respects : correspondence.Respects eval)
    (scopes : correspondence.cells scope other) (left right : Node) :
    correspondence.Agree correspondence.Values (Rule.branch eval scope left right)
      (Rule.branch eval other (correspondence.twin left) (correspondence.twin right)) := by
  apply (both_agrees respects scopes left right).bind
  rintro ⟨condition, body⟩ ⟨condition', body'⟩ ⟨conditions, bodies⟩
  dsimp only at conditions bodies ⊢
  rw [conditions.isVoid]
  split
  · exact Agree.pure .void
  · apply (wantAction_agrees .branch bodies).bind
    intro action action' actions
    apply (Agree.read scopes).bind
    intro seed seed' seeds
    rw [actions.body]
    exact (block_agrees respects action.body seeds).bind fun _ => Agree.pure .void

theorem loopFrom_agrees (respects : correspondence.Respects eval) {action action' : Action}
    (actions : correspondence.Actions action action') (position : Nat)
    {elements elements' : List Value}
    (inOrder : List.Forall₂ correspondence.Values elements elements') :
    correspondence.Agree Eq (Rule.loopFrom eval action position elements)
      (Rule.loopFrom eval action' position elements') := by
  induction inOrder generalizing position with
  | nil => exact Agree.pure rfl
  | cons values _ inductionHypothesis =>
      rw [Rule.loopFrom, Rule.loopFrom]
      apply (captured_agrees actions).bind
      intro closure closure' closures
      rw [actions.body]
      have seeds :=
        (closures.insert Reserved.element values).insert Reserved.position
          (.number (Float.ofNat position))
      exact (block_agrees respects action.body seeds).bind
        fun _ => inductionHypothesis (position + 1)

theorem each_agrees (respects : correspondence.Respects eval)
    (scopes : correspondence.cells scope other) (left right : Node) :
    correspondence.Agree correspondence.Values (Rule.each eval scope left right)
      (Rule.each eval other (correspondence.twin left) (correspondence.twin right)) := by
  apply (both_agrees respects scopes left right).bind
  rintro ⟨sequence, body⟩ ⟨sequence', body'⟩ ⟨sequences, bodies⟩
  apply (wantAction_agrees .each bodies).bind
  intro action action' actions
  apply Agree.heap.bind
  intro heap heap' heaps
  have found := heaps.elements? sequences
  dsimp only at found ⊢
  rw [sequences.tag]
  generalize heap.elements? sequence = elements at found ⊢
  generalize heap'.elements? sequence' = elements' at found ⊢
  cases found with
  | none => exact Agree.fail _
  | some inOrder =>
      exact (loopFrom_agrees respects actions 0 inOrder).bind fun _ => Agree.pure .void

/-! ## Exchange -/

theorem wantName_agrees (node : Node) :
    correspondence.Agree Eq (Rule.wantName node)
      (Rule.wantName (correspondence.twin node)) := by
  rw [Rule.wantName, Rule.wantName, twin, Node.name?_relabelled, Node.kind_relabelled]
  split
  · exact Agree.pure rfl
  · exact Agree.fail _

theorem declareModule_agrees (scopes : correspondence.cells scope other) (right : Node) :
    correspondence.Agree correspondence.Values (Rule.declareModule scope right)
      (Rule.declareModule other (correspondence.twin right)) := by
  apply (wantName_agrees right).bind
  rintro name _ rfl
  exact (Agree.bindName scopes Reserved.moduleName (.string name)).bind
    fun _ => Agree.pure .void

theorem exportModule_agrees (respects : correspondence.Respects eval)
    (scopes : correspondence.cells scope other) (right : Node) :
    correspondence.Agree correspondence.Values (Rule.exportModule eval scope right)
      (Rule.exportModule eval other (correspondence.twin right)) := by
  apply (Agree.lookup scopes Reserved.moduleName).bind
  intro found found' same
  cases same with
  | none => exact Agree.fail _
  | some _ =>
      apply (respects right scopes).bind
      intro value value' values
      exact (Agree.bindName scopes Reserved.exported values).bind fun _ => Agree.pure .void

theorem importPath_agrees (config : ImportConfig) (right : Node) :
    correspondence.Agree Eq (Rule.importPath config right)
      (Rule.importPath config (correspondence.twin right)) := by
  cases right with
  | constant value =>
      cases value with
      | string path => exact Agree.pure rfl
      | _ => exact Agree.fail _
  | atom name => exact Agree.pure rfl
  | _ => exact Agree.fail _

theorem program_agrees (respects : correspondence.Respects eval) (statements : Program)
    {initial initial' : Cell} (initials : correspondence.cells initial initial') :
    correspondence.Agree correspondence.cells (Rule.program eval statements initial)
      (Rule.program eval (statements.map correspondence.twin) initial') :=
  (Agree.read initials).bind (block_agrees respects statements)

/-- What is loaded for stamps that correspond are programs of twins, or one failure. -/
theorem loaded_agrees {loader : Loader} (loadsAlike : correspondence.LoadsAlike loader)
    {stamp stamp' : Nat} (stamps : correspondence.serials stamp stamp') (path : String) :
    correspondence.Agree (fun statements statements' : Program =>
        statements' = statements.map correspondence.twin)
      (Run.ofCollaborator (loader stamp path)) (Run.ofCollaborator (loader stamp' path)) := by
  rw [loadsAlike path stamps]
  cases loader stamp path with
  | ok statements => exact Agree.pure rfl
  | error cause => exact Agree.fail (.collaborator cause)

/-- What is loaded in two runs has one name, and what it exports corresponds. Nothing else of the
two states matters. -/
theorem loadModule_agrees (interpreter : Interpreter)
    (loadsAlike : correspondence.LoadsAlike interpreter.loader)
    (respects : correspondence.Respects eval) (path : String) :
    correspondence.Agree
      (fun loaded loaded' => loaded.1 = loaded'.1 ∧ correspondence.Values loaded.2 loaded'.2)
      (Rule.loadModule interpreter eval path) (Rule.loadModule interpreter eval path) := by
  apply Agree.fresh.bind
  intro stamp stamp' stamps
  apply (loaded_agrees loadsAlike stamps path).bind
  rintro statements _ rfl
  apply (Agree.alloc .nil).bind
  intro initial initial' initials
  apply (program_agrees respects statements initials).bind
  intro loaded loaded' loadeds
  apply (Agree.lookup loadeds Reserved.moduleName).bind
  intro found found' same
  cases same with
  | none => exact Agree.fail _
  | some names =>
      cases names with
      | string name =>
          apply (Agree.lookup loadeds Reserved.exported).bind
          intro exported exported' exporteds
          exact Agree.pure ⟨rfl, Values.getD exporteds⟩
      | _ => exact Agree.fail _

theorem importModule_agrees (interpreter : Interpreter)
    (loadsAlike : correspondence.LoadsAlike interpreter.loader)
    (respects : correspondence.Respects eval)
    (scopes : correspondence.cells scope other) (right : Node) :
    correspondence.Agree correspondence.Values (Rule.importModule interpreter eval scope right)
      (Rule.importModule interpreter eval other (correspondence.twin right)) := by
  rw [Rule.importModule_eq, Rule.importModule_eq]
  apply (importPath_agrees interpreter.config right).bind
  rintro path _ rfl
  apply (loadModule_agrees interpreter loadsAlike respects path).bind
  rintro ⟨name, exported⟩ ⟨_, exported'⟩ ⟨rfl, values⟩
  exact (Agree.bindName scopes name values).bind fun _ => Agree.pure .void

theorem requiredPath_agrees (right : Node) :
    correspondence.Agree Eq (Rule.requiredPath right)
      (Rule.requiredPath (correspondence.twin right)) := by
  have dotted : ∀ node : Node,
      correspondence.Agree Eq (do return Library.segments (← Rule.wantName node))
        (do return Library.segments (← Rule.wantName (correspondence.twin node))) :=
    fun node => (wantName_agrees node).bind fun same => Agree.pure (congrArg _ same)
  cases right with
  | template entries =>
      rw [twin_template]
      have names : correspondence.Agree (List.Forall₂ Eq)
          ((entries.map Prod.snd).mapM Rule.wantName)
          (((entries.map fun entry => (entry.1, correspondence.twin entry.2)).map
            Prod.snd).mapM Rule.wantName) := by
        apply Agree.mapM (forall₂_twin_entries entries)
        rintro node _ rfl
        exact wantName_agrees node
      rwa [List.forall₂_eq_eq_eq] at names
  | _ => exact dotted _

/-- Each run draws a serial number for a function, and the two numbers correspond. -/
theorem requireForeign_agrees (interpreter : Interpreter) (right : Node) :
    correspondence.Agree correspondence.Values (Rule.requireForeign interpreter right)
      (Rule.requireForeign interpreter (correspondence.twin right)) := by
  apply (requiredPath_agrees right).bind
  rintro path _ rfl
  apply (Agree.ofCollaborator (interpreter.library.resolve path)).bind
  rintro run _ rfl
  apply Agree.fresh.bind
  intro serial serial' serials
  exact Agree.pure (.function (Library.dotted path) (.host run) serials)

theorem print_agrees (interpreter : Interpreter) (respects : correspondence.Respects eval)
    (scopes : correspondence.cells scope other) (right : Node) :
    correspondence.Agree correspondence.Values (Rule.print interpreter eval scope right)
      (Rule.print interpreter eval other (correspondence.twin right)) := by
  apply (respects right scopes).bind
  intro value value' values
  split
  · exact Agree.pure .void
  · apply Agree.heap.bind
    intro heap heap' heaps
    rw [heaps.display values]
    exact (Agree.printLine _).bind fun _ => Agree.pure .void

/-! ## Nodes and programs -/

theorem apply_agrees (interpreter : Interpreter)
    (loadsAlike : correspondence.LoadsAlike interpreter.loader)
    (respects : correspondence.Respects eval) (scopes : correspondence.cells scope other)
    (operator : Operator) (left right : Node) :
    correspondence.Agree correspondence.Values
      (interpreter.apply eval scope operator left right)
      (interpreter.apply eval other operator (correspondence.twin left)
        (correspondence.twin right)) := by
  cases operator with
  | bind => exact bind_agrees respects scopes left right
  | add => exact arithmetic_agrees respects scopes .add left right
  | subtract => exact arithmetic_agrees respects scopes .subtract left right
  | equal => exact equality_agrees respects scopes .equal left right
  | notEqual => exact equality_agrees respects scopes .notEqual left right
  | field => exact field_agrees respects scopes left right
  | keyRead => exact keyRead_agrees respects scopes left right
  | capture => exact capture_agrees respects scopes left right
  | call => exact call_agrees respects scopes left right
  | branch => exact branch_agrees respects scopes left right
  | each => exact each_agrees respects scopes left right
  | append => exact append_agrees respects scopes left right
  | assign => exact assign_agrees respects scopes left right
  | construct => exact construct_agrees right
  | declareModule => exact declareModule_agrees scopes right
  | exportModule => exact exportModule_agrees respects scopes right
  | importModule => exact importModule_agrees interpreter loadsAlike respects scopes right
  | requireForeign => exact requireForeign_agrees interpreter right
  | print => exact print_agrees interpreter respects scopes right
  | result => exact result_agrees respects scopes right

theorem operatorOf_agrees (node : Node) :
    correspondence.Agree Eq (Interpreter.operatorOf node)
      (Interpreter.operatorOf (correspondence.twin node)) := by
  cases node with
  | operator symbol =>
      cases spelled : Operator.ofSymbol? symbol with
      | some operator =>
          simp only [twin, Node.relabelled, Interpreter.operatorOf, spelled]
          exact Agree.pure rfl
      | none =>
          simp only [twin, Node.relabelled, Interpreter.operatorOf, spelled]
          exact Agree.fail _
  | _ => exact Agree.fail _

/-- One step respects a correspondence if what lies inside the node does. -/
theorem respects_step (interpreter : Interpreter)
    (loadsAlike : correspondence.LoadsAlike interpreter.loader)
    (respects : correspondence.Respects eval) :
    correspondence.Respects (interpreter.step eval) := by
  intro scope other node scopes
  have name : ∀ text : String,
      correspondence.Agree correspondence.Values
        (do return (← Run.lookup scope text).getD (.string text))
        (do return (← Run.lookup other text).getD (.string text)) := by
    intro text
    apply (Agree.lookup scopes text).bind
    intro found found' same
    cases same with
    | none => exact Agree.pure (.string text)
    | some values => exact Agree.pure values
  cases node with
  | expression applied left right =>
      apply (operatorOf_agrees applied).bind
      rintro operator _ rfl
      exact (apply_agrees interpreter loadsAlike respects scopes operator left right).tagged
        operator
  | operator symbol => exact Agree.fail _
  | atom text => exact name text
  | accessor text => exact name text
  | constant value => exact Agree.pure (Values.constant value)
  | action label body =>
      rw [twin_action]
      exact Agree.pure (.action label body .none)
  | template entries =>
      rw [twin_template]
      apply (materialize_agrees respects scopes entries).bind
      intro table table' tables
      exact (Agree.alloc tables).bind fun cells => Agree.pure (.struct cells)

/-- Evaluation respects every correspondence, however deeply it nests. -/
theorem respects_evaluate (interpreter : Interpreter)
    (loadsAlike : correspondence.LoadsAlike interpreter.loader) (depth : Nat) :
    correspondence.Respects (interpreter.evaluate depth) := by
  induction depth with
  | zero => exact fun _ _ _ _ => Agree.unfinished
  | succ depth inductionHypothesis =>
      exact respects_step interpreter loadsAlike inductionHypothesis

end Correspondence

end Tabula
