import Tabula.Proofs.Discipline.Merge
import Tabula.Proofs.Loading

/-!
# Evaluation obeys every discipline

One lemma per rule says that the rule obeys a discipline if the evaluator that it is given does.
From them, `Discipline.governs_evaluate` follows by induction on the depth of nesting.
-/

namespace Tabula

namespace Discipline

variable {discipline : Discipline} {eval : Evaluator} {scope : Cell} {state : State}

/-! ## Operands -/

theorem both_keeps (governs : discipline.Governs eval)
    (held : discipline.writable state.heap.size scope) (left right : Node) :
    discipline.Keeps state (Rule.both eval scope left right) fun size values =>
      discipline.Admits size values.1 ∧ discipline.Admits size values.2 := by
  refine (governs state scope left held).attempt.bind ?_
  intro afterLeft leftOutcome grownLeft admitsLeft
  have heldLeft := discipline.writable_mono grownLeft held
  refine (governs afterLeft scope right heldLeft).attempt.bind ?_
  intro afterRight rightOutcome grownRight admitsRight
  have leftNow : ∀ value, leftOutcome = .ok value →
      discipline.Admits afterRight.heap.size value :=
    fun value isValue => (admitsLeft value isValue).mono grownRight
  refine (Keeps.ofExcept leftNow).bind ?_
  intro afterFirst left grownFirst admitsFirst
  have rightNow : ∀ value, rightOutcome = .ok value →
      discipline.Admits afterFirst.heap.size value :=
    fun value isValue => (admitsRight value isValue).mono grownFirst
  refine (Keeps.ofExcept rightNow).bind ?_
  intro afterSecond right grownSecond admitsSecond
  exact Keeps.pure fun _ => ⟨admitsFirst.mono grownSecond, admitsSecond⟩

section ForAll

variable {α β : Type} {wanted : Nat → β → Prop} {step : α → Run β}

private theorem mapM_attempt_keeps
    (lasting : Lasting wanted) (items : List α) {state : State}
    (keeps : ∀ after item, item ∈ items → state.heap.size ≤ after.heap.size →
      discipline.Keeps after (step item) wanted) :
    discipline.Keeps state (items.mapM fun item => Run.attempt (step item))
      fun size outcomes => ∀ outcome ∈ outcomes, ∀ value, outcome = .ok value →
        wanted size value := by
  induction items generalizing state with
  | nil => exact Keeps.pure fun _ outcome member => absurd member List.not_mem_nil
  | cons item rest inductionHypothesis =>
      rw [List.mapM_cons]
      refine (keeps state item List.mem_cons_self (Nat.le_refl _)).attempt.bind ?_
      intro afterItem outcome grownItem wantedItem
      refine (inductionHypothesis ?_).bind ?_
      · intro after other member grown
        exact keeps after other (List.mem_cons_of_mem item member)
          (Nat.le_trans grownItem grown)
      · intro afterRest outcomes grownRest wantedRest
        refine Keeps.pure fun _ other member value isValue => ?_
        rcases List.mem_cons.mp member with rfl | later
        · exact lasting _ _ _ grownRest (wantedItem value isValue)
        · exact wantedRest other later value isValue

private theorem mapM_ofExcept_keeps
    (lasting : Lasting wanted) (outcomes : List (Except Error β)) {state : State}
    (wantedAll : ∀ outcome ∈ outcomes, ∀ value, outcome = .ok value →
      wanted state.heap.size value) :
    discipline.Keeps state (outcomes.mapM Run.ofExcept)
      fun size values => ∀ value ∈ values, wanted size value := by
  induction outcomes generalizing state with
  | nil => exact Keeps.pure fun _ value member => absurd member List.not_mem_nil
  | cons outcome rest inductionHypothesis =>
      rw [List.mapM_cons]
      refine (Keeps.ofExcept (wantedAll outcome List.mem_cons_self)).bind ?_
      intro afterFirst first grownFirst wantedFirst
      refine (inductionHypothesis ?_).bind ?_
      · intro other member value isValue
        exact lasting _ _ _ grownFirst
          (wantedAll other (List.mem_cons_of_mem outcome member) value isValue)
      · intro afterRest values grownRest wantedRest
        refine Keeps.pure fun _ value member => ?_
        rcases List.mem_cons.mp member with rfl | later
        · exact lasting _ _ _ grownRest wantedFirst
        · exact wantedRest value later

theorem forAll_keeps
    (lasting : Lasting wanted) (items : List α)
    (keeps : ∀ after item, item ∈ items → state.heap.size ≤ after.heap.size →
      discipline.Keeps after (step item) wanted) :
    discipline.Keeps state (Rule.forAll step items)
      fun size values => ∀ value ∈ values, wanted size value :=
  (mapM_attempt_keeps lasting items keeps).bind
    fun _ outcomes _ wantedAll => mapM_ofExcept_keeps lasting outcomes wantedAll

end ForAll

theorem entry_keeps (governs : discipline.Governs eval)
    (held : discipline.writable state.heap.size scope) (node : Node) :
    discipline.Keeps state (Rule.entry eval scope node) discipline.Admits := by
  cases node with
  | atom name => exact Keeps.pure fun _ => trivial
  | _ => exact governs state scope _ held

theorem materialize_keeps (governs : discipline.Governs eval)
    (held : discipline.writable state.heap.size scope) (template : List (String × Node)) :
    discipline.Keeps state (Rule.materialize eval scope template) discipline.AdmitsTable := by
  have entries :
      discipline.Keeps state (Rule.forAll (Rule.entry eval scope) (template.map Prod.snd))
        fun size values => ∀ value ∈ values, discipline.Admits size value :=
    forAll_keeps lasting_admits _ fun after node _ grown =>
      entry_keeps governs (discipline.writable_mono grown held) node
  refine entries.bind ?_
  intro after values _ admitsAll
  refine Keeps.pure fun _ => (AdmitsTable.nil _).overlay ?_
  intro entry member
  exact admitsAll entry.2 (List.of_mem_zip member).2

theorem statements_keeps (governs : discipline.Governs eval) (body : List Node)
    {state : State} (held : discipline.writable state.heap.size scope) :
    discipline.Keeps state (Rule.statements eval scope body) fun _ _ => True := by
  induction body generalizing state with
  | nil => exact Keeps.pure fun _ => trivial
  | cons node rest inductionHypothesis =>
      change discipline.Keeps state
        (discard (eval scope node) >>= fun _ => Rule.statements eval scope rest) _
      have first :
          discipline.Keeps state (discard (eval scope node)) fun _ _ => True :=
        (governs state scope node held).map fun _ _ _ => trivial
      refine first.bind ?_
      intro after _ grown _
      exact inductionHypothesis (discipline.writable_mono grown held)

/-- A block may hold the scope that it runs in, which is a new cell. -/
theorem block_keeps (governs : discipline.Governs eval) (body : List Node)
    {bindings : Table Value} (admits : discipline.AdmitsTable state.heap.size bindings) :
    discipline.Keeps state (Rule.block eval body bindings) discipline.writable := by
  refine (Keeps.alloc admits).bind ?_
  intro afterAlloc inner _ heldInner
  refine (statements_keeps governs body heldInner).bind ?_
  intro afterBody _ grown _
  exact Keeps.pure fun _ => discipline.writable_mono grown heldInner

theorem returned_keeps (held : discipline.writable state.heap.size scope) :
    discipline.Keeps state (Rule.returned scope) discipline.Admits := by
  refine (Keeps.lookup Reserved.result (discipline.readable_of_writable held)).bind ?_
  intro after found _ admits
  cases found with
  | none => exact Keeps.pure fun _ => trivial
  | some value => exact Keeps.pure fun _ => admits value rfl

theorem captured_keeps {action : Action}
    (admits : discipline.Admits state.heap.size (.action action)) :
    discipline.Keeps state (Rule.captured action) discipline.AdmitsTable := by
  rw [Rule.captured]
  split
  · rename_i cell captured
    exact Keeps.read (admits cell captured)
  · exact Keeps.pure fun _ => AdmitsTable.nil _

theorem wantAction_keeps (operator : Operator) {value : Value}
    (admits : discipline.Admits state.heap.size value) :
    discipline.Keeps state (Rule.wantAction operator value)
      fun size action => discipline.Admits size (.action action) := by
  cases value with
  | action block => exact Keeps.pure fun _ => admits
  | _ => exact Keeps.fail _

/-! ## Operations -/

theorem arithmetic_keeps (governs : discipline.Governs eval)
    (held : discipline.writable state.heap.size scope) (operator : Operator) (left right : Node) :
    discipline.Keeps state (Rule.arithmetic eval scope operator left right)
      discipline.Admits := by
  refine (both_keeps governs held left right).bind ?_
  rintro after ⟨x, y⟩ _ _
  dsimp only
  split
  · exact Keeps.pure fun _ => trivial
  · exact Keeps.fail _
  · exact Keeps.pure fun _ => trivial
  · exact Keeps.pure fun _ => trivial
  · exact Keeps.fail _

theorem equality_keeps (governs : discipline.Governs eval)
    (held : discipline.writable state.heap.size scope) (operator : Operator) (left right : Node) :
    discipline.Keeps state (Rule.equality eval scope operator left right) discipline.Admits := by
  refine (both_keeps governs held left right).bind ?_
  rintro after ⟨x, y⟩ _ _
  dsimp only
  split
  · refine Keeps.bindHeap ?_
    split
    · exact Keeps.pure fun _ => trivial
    · exact Keeps.unfinished
  · exact Keeps.fail _

theorem fieldUnder_keeps {target : Value} (key : Value)
    (admits : discipline.Admits state.heap.size target) :
    discipline.Keeps state (Rule.fieldUnder target key) discipline.Admits := by
  rw [Rule.fieldUnder]
  split
  · rename_i name _
    exact Keeps.bindHeap (Keeps.pure fun kept => admits_field name kept admits)
  · exact Keeps.pure fun _ => trivial

theorem field_keeps (governs : discipline.Governs eval)
    (held : discipline.writable state.heap.size scope) (left right : Node) :
    discipline.Keeps state (Rule.field eval scope left right) discipline.Admits := by
  cases right with
  | atom key =>
      refine (governs state scope left held).bind ?_
      intro after target _ admits
      exact Keeps.bindHeap (Keeps.pure fun kept => admits_field key kept admits)
  | accessor name =>
      refine (both_keeps governs held left (.accessor name)).bind ?_
      rintro after ⟨target, key⟩ _ admits
      exact fieldUnder_keeps key admits.1
  | _ => exact Keeps.fail _

theorem keyRead_keeps (governs : discipline.Governs eval)
    (held : discipline.writable state.heap.size scope) (left right : Node) :
    discipline.Keeps state (Rule.keyRead eval scope left right) discipline.Admits := by
  refine (both_keeps governs held left right).bind ?_
  rintro after ⟨key, target⟩ _ admits
  exact fieldUnder_keeps key admits.2

/-- A captured action leads to the scope that captured it, which the run holds. -/
theorem capture_keeps (governs : discipline.Governs eval)
    (held : discipline.writable state.heap.size scope) (left right : Node) :
    discipline.Keeps state (Rule.capture eval scope left right) discipline.Admits := by
  refine (both_keeps governs held left right).bind ?_
  rintro afterBoth ⟨ignored, value⟩ grownBoth admits
  refine (wantAction_keeps .capture admits.2).bind ?_
  intro after action grown _
  refine Keeps.pure fun _ => ?_
  intro cell captured
  cases captured
  exact discipline.readable_of_writable
    (discipline.writable_mono (Nat.le_trans grownBoth grown) held)

theorem construct_keeps (right : Node) :
    discipline.Keeps state (Rule.construct right) discipline.Admits := by
  rw [Rule.construct]
  split
  · exact (Keeps.alloc (AdmitsTable.nil _)).map fun _ _ admits => admits
  · exact Keeps.fail _
  · exact Keeps.fail _

/-! ## Writing -/

theorem bind_keeps (governs : discipline.Governs eval)
    (held : discipline.writable state.heap.size scope) (left right : Node) :
    discipline.Keeps state (Rule.bind eval scope left right) discipline.Admits := by
  cases left with
  | atom name =>
      refine (governs state scope right held).bind ?_
      intro afterValue value grown admits
      have heldNow := discipline.writable_mono grown held
      exact (Keeps.bindName name heldNow admits).bind
        fun _ _ _ _ => Keeps.pure fun _ => trivial
  | _ => exact Keeps.fail _

theorem append_keeps (governs : discipline.Governs eval)
    (held : discipline.writable state.heap.size scope) (left right : Node) :
    discipline.Keeps state (Rule.append eval scope left right) discipline.Admits := by
  refine (both_keeps governs held left right).bind ?_
  rintro after ⟨target, value⟩ _ admits
  cases target with
  | struct cell =>
      -- appending is an insertion under a key that depends on the table
      have pushed :
          discipline.Keeps after
            (Run.modifyHeap fun heap => heap.write cell ((heap.read cell).push value))
            fun _ _ => True :=
        Keeps.modifyHeap
          (fun kept => discipline.insert (Nat.repr (after.heap.read cell).freeIndex) kept
            admits.1 admits.2)
          (Nat.le_of_eq (after.heap.size_write cell _).symm)
      exact pushed.bind fun _ _ _ _ => Keeps.pure fun _ => trivial
  | _ => exact Keeps.fail _

theorem stepKey_keeps (governs : discipline.Governs eval)
    (held : discipline.writable state.heap.size scope) (node : Node) :
    discipline.Keeps state (Rule.stepKey eval scope node) fun _ _ => True := by
  cases node with
  | atom name => exact Keeps.pure fun _ => trivial
  | accessor name =>
      refine (governs state scope (.accessor name) held).bind ?_
      intro after value _ _
      split
      · exact Keeps.pure fun _ => trivial
      · exact Keeps.fail _
  | _ => exact Keeps.fail _

theorem targetFrom_keeps (governs : discipline.Governs eval)
    (held : discipline.writable state.heap.size scope) (keys : List String) (node : Node) :
    discipline.Keeps state (Rule.targetFrom eval scope keys node) fun _ _ => True := by
  fun_induction Rule.targetFrom eval scope keys node generalizing state with
  | case1 keys left right inductionHypothesis =>
      refine (stepKey_keeps governs held right).bind ?_
      intro after key grown _
      exact inductionHypothesis key (discipline.writable_mono grown held)
  | case2 => exact Keeps.fail _
  | case3 => exact Keeps.fail _
  | case4 => exact Keeps.pure fun _ => trivial
  | case5 => exact Keeps.fail _

theorem assign_keeps (governs : discipline.Governs eval)
    (held : discipline.writable state.heap.size scope) (left right : Node) :
    discipline.Keeps state (Rule.assign eval scope left right) discipline.Admits := by
  refine (governs state scope right held).bind ?_
  intro afterValue value grownValue admits
  have heldValue := discipline.writable_mono grownValue held
  refine (targetFrom_keeps governs heldValue [] left).bind ?_
  intro after target grown _
  have heldNow := discipline.writable_mono grown heldValue
  have assigned :
      discipline.Keeps after (Run.modifyHeap (·.assign scope target value))
        fun _ _ => True := by
    intro kept
    have reached := kept_assign target kept heldNow (admits.mono grown)
    exact Keeps.modifyHeap (fun _ => reached.1) reached.2 kept
  exact assigned.bind fun _ _ _ _ => Keeps.pure fun _ => trivial

theorem result_keeps (governs : discipline.Governs eval)
    (held : discipline.writable state.heap.size scope) (right : Node) :
    discipline.Keeps state (Rule.result eval scope right) discipline.Admits := by
  refine (governs state scope right held).bind ?_
  intro afterValue value grown admits
  have heldNow := discipline.writable_mono grown held
  exact (Keeps.bindName Reserved.result heldNow admits).bind
    fun _ _ _ _ => Keeps.pure fun _ => trivial

/-! ## Blocks -/

mutual

/-- The value of an answer is an argument or is made of new structs. -/
theorem toValue_keeps {arguments : List Value} (reply : Reply) {state : State}
    (admits : ∀ value ∈ arguments, discipline.Admits state.heap.size value) :
    discipline.Keeps state (reply.toValue arguments) discipline.Admits := by
  cases reply with
  | argument position =>
      refine Keeps.pure fun _ => ?_
      rw [List.getD_eq_getElem?_getD]
      cases found : arguments[position]? with
      | none => trivial
      | some value => exact admits value (List.mem_of_getElem? found)
  | sequence elements =>
      rw [Reply.toValue]
      refine (toValues_keeps elements admits).bind ?_
      intro after values _ admitsValues
      refine (Keeps.alloc (AdmitsTable.sequence admitsValues)).bind ?_
      intro afterAlloc cell _ writable
      exact Keeps.pure fun _ => writable
  | _ => exact Keeps.pure fun _ => trivial

theorem toValues_keeps {arguments : List Value} (replies : List Reply) {state : State}
    (admits : ∀ value ∈ arguments, discipline.Admits state.heap.size value) :
    discipline.Keeps state (Reply.toValues arguments replies)
      fun size values => ∀ value ∈ values, discipline.Admits size value := by
  cases replies with
  | nil => exact Keeps.pure fun _ value member => absurd member List.not_mem_nil
  | cons reply rest =>
      rw [Reply.toValues]
      refine (toValue_keeps reply admits).bind ?_
      intro afterFirst first grownFirst admitsFirst
      have admitsNow : ∀ value ∈ arguments, discipline.Admits afterFirst.heap.size value :=
        fun value member => (admits value member).mono grownFirst
      refine (toValues_keeps rest admitsNow).bind ?_
      intro afterRest values grownRest admitsRest
      refine Keeps.pure fun _ value member => ?_
      rcases List.mem_cons.mp member with rfl | later
      · exact admitsFirst.mono grownRest
      · exact admitsRest value later

end

theorem functionCall_keeps (function : Function) {arguments : List Value}
    (admits : ∀ value ∈ arguments, discipline.Admits state.heap.size value) :
    discipline.Keeps state (function.call arguments) discipline.Admits := by
  rw [Function.call]
  split
  · refine Keeps.bindHeap ?_
    split
    · rename_i json _
      exact Keeps.pure fun _ => by cases json <;> trivial
    · exact Keeps.pure fun _ => trivial
  · split
    · rename_i reply _
      exact toValue_keeps reply admits
    · exact Keeps.fail _

theorem positional_keeps (governs : discipline.Governs eval)
    (held : discipline.writable state.heap.size scope) (right : Node) :
    discipline.Keeps state (Rule.positional eval scope right)
      fun size values => ∀ value ∈ values, discipline.Admits size value := by
  cases right with
  | template entries =>
      exact forAll_keeps lasting_admits _ fun after node _ grown =>
        governs after scope node (discipline.writable_mono grown held)
  | _ =>
      refine (governs state scope _ held).bind ?_
      intro after value _ admits
      split
      · refine (Keeps.read (discipline.readable_of_writable admits)).bind ?_
        intro afterRead table _ admitsTable
        exact Keeps.pure fun _ => admitsTable.2
      · exact Keeps.pure fun _ value member => absurd member List.not_mem_nil
      · refine Keeps.pure fun _ other member => ?_
        rw [List.mem_singleton.mp member]
        exact admits

theorem ofValue_keeps {value : Value} (admits : discipline.Admits state.heap.size value) :
    discipline.Keeps state (Rule.named.ofValue value) discipline.AdmitsTable := by
  cases value with
  | struct cell => exact Keeps.read (discipline.readable_of_writable admits)
  | void => exact Keeps.pure fun _ => AdmitsTable.nil _
  | _ => exact Keeps.fail _

theorem named_keeps (governs : discipline.Governs eval)
    (held : discipline.writable state.heap.size scope) (right : Node) :
    discipline.Keeps state (Rule.named eval scope right) discipline.AdmitsTable := by
  have evaluated : ∀ {state : State} (node : Node),
      discipline.writable state.heap.size scope →
      discipline.Keeps state (eval scope node >>= Rule.named.ofValue)
        discipline.AdmitsTable := fun node held =>
    (governs _ scope node held).bind fun _ _ _ admits => ofValue_keeps admits
  cases right with
  | template entries => exact materialize_keeps governs held entries
  | atom name =>
      refine (Keeps.lookup name (discipline.readable_of_writable held)).bind ?_
      intro after found grown _
      cases found with
      | none => exact Keeps.pure fun _ => AdmitsTable.nil _
      | some value => exact evaluated (.atom name) (discipline.writable_mono grown held)
  | _ => exact evaluated _ held

theorem invoke_keeps (governs : discipline.Governs eval)
    (held : discipline.writable state.heap.size scope) {action : Action}
    {bindings : Table Value}
    (admitsAction : discipline.Admits state.heap.size (.action action))
    (admits : discipline.AdmitsTable state.heap.size bindings) :
    discipline.Keeps state (Rule.invoke eval scope action bindings) discipline.Admits := by
  refine (captured_keeps admitsAction).bind ?_
  intro afterRead closure grownRead admitsClosure
  have overlaid :
      discipline.AdmitsTable afterRead.heap.size
        (bindings.overlay (closure.filter fun entry => entry.1 ≠ Reserved.result)) := by
    refine (admits.mono grownRead).overlay ?_
    intro entry member
    exact admitsClosure.2 entry.2 (List.mem_map_of_mem (List.mem_filter.mp member).1)
  have caller : discipline.Admits afterRead.heap.size (.struct scope) :=
    discipline.writable_mono grownRead held
  refine (block_keeps governs action.body (overlaid.insert Reserved.caller caller)).bind ?_
  intro after inner _ heldInner
  exact returned_keeps heldInner

theorem call_keeps (governs : discipline.Governs eval)
    (held : discipline.writable state.heap.size scope) (left right : Node) :
    discipline.Keeps state (Rule.call eval scope left right) discipline.Admits := by
  refine (governs state scope left held).bind ?_
  intro afterCallee callee grown admits
  have heldNow := discipline.writable_mono grown held
  split
  · rename_i function
    refine (positional_keeps governs heldNow right).bind ?_
    intro after arguments _ admitsArguments
    exact functionCall_keeps function admitsArguments
  · rename_i action
    refine (named_keeps governs heldNow right).bind ?_
    intro after bindings grownBindings admitsBindings
    exact invoke_keeps governs (discipline.writable_mono grownBindings heldNow)
      (admits.mono grownBindings) admitsBindings
  · exact Keeps.fail _

theorem branch_keeps (governs : discipline.Governs eval)
    (held : discipline.writable state.heap.size scope) (left right : Node) :
    discipline.Keeps state (Rule.branch eval scope left right) discipline.Admits := by
  refine (both_keeps governs held left right).bind ?_
  rintro afterBoth ⟨condition, body⟩ grownBoth admits
  dsimp only
  split
  · exact Keeps.pure fun _ => trivial
  · refine (wantAction_keeps .branch admits.2).bind ?_
    intro afterWant action grownWant _
    have heldNow := discipline.writable_mono (Nat.le_trans grownBoth grownWant) held
    refine (Keeps.read (discipline.readable_of_writable heldNow)).bind ?_
    intro afterRead seed _ admitsSeed
    exact (block_keeps governs action.body admitsSeed).bind
      fun _ _ _ _ => Keeps.pure fun _ => trivial

theorem loopFrom_keeps (governs : discipline.Governs eval) {action : Action} (position : Nat)
    {elements : List Value} {state : State}
    (admitsAction : discipline.Admits state.heap.size (.action action))
    (admits : ∀ element ∈ elements, discipline.Admits state.heap.size element) :
    discipline.Keeps state (Rule.loopFrom eval action position elements) fun _ _ => True := by
  induction elements generalizing state position with
  | nil => exact Keeps.pure fun _ => trivial
  | cons element rest inductionHypothesis =>
      rw [Rule.loopFrom]
      refine (captured_keeps admitsAction).bind ?_
      intro afterRead closure grownRead admitsClosure
      have admitsElement :=
        (admits element List.mem_cons_self).mono grownRead
      have seed :
          discipline.AdmitsTable afterRead.heap.size
            ((closure.insert Reserved.element element).insert Reserved.position
              (.number (Float.ofNat position))) :=
        (admitsClosure.insert Reserved.element admitsElement).insert Reserved.position trivial
      refine (block_keeps governs action.body seed).bind ?_
      intro after inner grown _
      have grownAll := Nat.le_trans grownRead grown
      exact inductionHypothesis (position + 1) (admitsAction.mono grownAll)
        fun other member => (admits other (List.mem_cons_of_mem element member)).mono grownAll

theorem each_keeps (governs : discipline.Governs eval)
    (held : discipline.writable state.heap.size scope) (left right : Node) :
    discipline.Keeps state (Rule.each eval scope left right) discipline.Admits := by
  refine (both_keeps governs held left right).bind ?_
  rintro afterBoth ⟨sequence, body⟩ _ admits
  refine (wantAction_keeps .each admits.2).bind ?_
  intro after action grown admitsAction
  have admitsSequence := admits.1.mono grown
  refine Keeps.bindHeap ?_
  cases sequence with
  | struct cell =>
      intro kept
      have table := admitsTable_read kept (discipline.readable_of_writable admitsSequence)
      have looped := loopFrom_keeps governs 0 admitsAction table.2
      exact looped.bind (fun _ _ _ _ => Keeps.pure fun _ => trivial) kept
  | _ => exact Keeps.fail _

/-! ## Exchange -/

theorem wantName_keeps (node : Node) :
    discipline.Keeps state (Rule.wantName node) fun _ _ => True := by
  rw [Rule.wantName]
  split
  · exact Keeps.pure fun _ => trivial
  · exact Keeps.fail _

theorem declareModule_keeps (held : discipline.writable state.heap.size scope) (right : Node) :
    discipline.Keeps state (Rule.declareModule scope right) discipline.Admits := by
  refine (wantName_keeps right).bind ?_
  intro after name grown _
  have heldNow := discipline.writable_mono grown held
  have admits : discipline.Admits after.heap.size (.string name) := trivial
  exact (Keeps.bindName Reserved.moduleName heldNow admits).bind
    fun _ _ _ _ => Keeps.pure fun _ => trivial

theorem exportModule_keeps (governs : discipline.Governs eval)
    (held : discipline.writable state.heap.size scope) (right : Node) :
    discipline.Keeps state (Rule.exportModule eval scope right) discipline.Admits := by
  refine (Keeps.lookup Reserved.moduleName (discipline.readable_of_writable held)).bind ?_
  intro afterLookup found grownLookup _
  have heldLookup := discipline.writable_mono grownLookup held
  cases found with
  | none => exact Keeps.fail _
  | some _ =>
      refine (governs afterLookup scope right heldLookup).bind ?_
      intro afterValue value grown admits
      have heldNow := discipline.writable_mono grown heldLookup
      exact (Keeps.bindName Reserved.exported heldNow admits).bind
        fun _ _ _ _ => Keeps.pure fun _ => trivial

theorem importPath_keeps (config : ImportConfig) (right : Node) :
    discipline.Keeps state (Rule.importPath config right) fun _ _ => True := by
  unfold Rule.importPath
  split
  · exact Keeps.pure fun _ => trivial
  · exact Keeps.pure fun _ => trivial
  · exact Keeps.fail _

/-- A program runs in a copy of a scope, which has to be readable only. -/
theorem program_keeps (governs : discipline.Governs eval) (statements : Program)
    {initial : Cell} (readable : discipline.readable state.heap.size initial) :
    discipline.Keeps state (Rule.program eval statements initial) discipline.writable :=
  (Keeps.read readable).bind fun _ _ _ admits => block_keeps governs statements admits

/-- Loading a module holds nothing of what was there before. -/
theorem loadModule_keeps (interpreter : Interpreter) (governs : discipline.Governs eval)
    (path : String) :
    discipline.Keeps state (Rule.loadModule interpreter eval path)
      fun size loaded => discipline.Admits size loaded.2 := by
  refine Keeps.fresh.bind ?_
  intro afterFresh stamp grownFresh _
  have loading :
      discipline.Keeps afterFresh
        (Run.ofCollaborator (interpreter.loader stamp path)) fun _ _ => True :=
    Keeps.ofCollaborator fun _ _ => trivial
  refine loading.bind ?_
  intro afterLoad statements grownLoad _
  refine (Keeps.alloc (AdmitsTable.nil _)).bind ?_
  intro afterAlloc initial grownAlloc heldInitial
  refine (program_keeps governs statements
    (discipline.readable_of_writable heldInitial)).bind ?_
  intro afterRun loaded grownRun heldLoaded
  refine (Keeps.lookup Reserved.moduleName (discipline.readable_of_writable heldLoaded)).bind ?_
  intro afterName found grownName _
  have loadedNow := discipline.writable_mono grownName heldLoaded
  split
  · refine (Keeps.lookup Reserved.exported (discipline.readable_of_writable loadedNow)).bind ?_
    intro afterExport exported grownExport admits
    have admitsExported :
        discipline.Admits afterExport.heap.size (exported.getD .void) := by
      cases exported with
      | none => trivial
      | some value => exact admits value rfl
    exact Keeps.pure fun _ => admitsExported
  · exact Keeps.fail _

theorem importModule_keeps (interpreter : Interpreter) (governs : discipline.Governs eval)
    (held : discipline.writable state.heap.size scope) (right : Node) :
    discipline.Keeps state (Rule.importModule interpreter eval scope right)
      discipline.Admits := by
  rw [Rule.importModule_eq]
  refine (importPath_keeps interpreter.config right).bind ?_
  intro afterPath path grownPath _
  refine (loadModule_keeps interpreter governs path).bind ?_
  intro afterLoad loaded grownLoad admits
  have heldNow : discipline.writable afterLoad.heap.size scope :=
    discipline.writable_mono (Nat.le_trans grownPath grownLoad) held
  exact (Keeps.bindName _ heldNow admits).bind fun _ _ _ _ => Keeps.pure fun _ => trivial

theorem mapM_wantName_keeps (nodes : List Node) {state : State} :
    discipline.Keeps state (nodes.mapM Rule.wantName) fun _ _ => True := by
  induction nodes generalizing state with
  | nil => exact Keeps.pure fun _ => trivial
  | cons node rest inductionHypothesis =>
      rw [List.mapM_cons]
      refine (wantName_keeps node).bind fun _ _ _ _ => ?_
      exact inductionHypothesis.bind fun _ _ _ _ => Keeps.pure fun _ => trivial

theorem requiredPath_keeps (right : Node) :
    discipline.Keeps state (Rule.requiredPath right) fun _ _ => True := by
  cases right with
  | template entries => exact mapM_wantName_keeps _
  | _ => exact (wantName_keeps _).bind fun _ _ _ _ => Keeps.pure fun _ => trivial

theorem requireForeign_keeps (interpreter : Interpreter) (right : Node) :
    discipline.Keeps state (Rule.requireForeign interpreter right) discipline.Admits := by
  refine (requiredPath_keeps right).bind ?_
  intro afterPath path _ _
  have resolving :
      discipline.Keeps afterPath (Run.ofCollaborator (interpreter.library.resolve path))
        fun _ _ => True :=
    Keeps.ofCollaborator fun _ _ => trivial
  refine resolving.bind ?_
  intro afterResolve run _ _
  exact Keeps.fresh.bind fun _ _ _ _ => Keeps.pure fun _ => trivial

theorem print_keeps (interpreter : Interpreter) (governs : discipline.Governs eval)
    (held : discipline.writable state.heap.size scope) (right : Node) :
    discipline.Keeps state (Rule.print interpreter eval scope right) discipline.Admits := by
  refine (governs state scope right held).bind ?_
  intro after value _ _
  split
  · exact Keeps.pure fun _ => trivial
  · refine Keeps.bindHeap ?_
    exact (Keeps.printLine _).bind fun _ _ _ _ => Keeps.pure fun _ => trivial

/-! ## Nodes and programs -/

theorem apply_keeps (interpreter : Interpreter) (governs : discipline.Governs eval)
    (held : discipline.writable state.heap.size scope) (operator : Operator)
    (left right : Node) :
    discipline.Keeps state (interpreter.apply eval scope operator left right)
      discipline.Admits := by
  cases operator with
  | bind => exact bind_keeps governs held left right
  | add => exact arithmetic_keeps governs held .add left right
  | subtract => exact arithmetic_keeps governs held .subtract left right
  | equal => exact equality_keeps governs held .equal left right
  | notEqual => exact equality_keeps governs held .notEqual left right
  | field => exact field_keeps governs held left right
  | keyRead => exact keyRead_keeps governs held left right
  | capture => exact capture_keeps governs held left right
  | call => exact call_keeps governs held left right
  | branch => exact branch_keeps governs held left right
  | each => exact each_keeps governs held left right
  | append => exact append_keeps governs held left right
  | assign => exact assign_keeps governs held left right
  | construct => exact construct_keeps right
  | declareModule => exact declareModule_keeps held right
  | exportModule => exact exportModule_keeps governs held right
  | importModule => exact importModule_keeps interpreter governs held right
  | requireForeign => exact requireForeign_keeps interpreter right
  | print => exact print_keeps interpreter governs held right
  | result => exact result_keeps governs held right

theorem operatorOf_keeps (node : Node) :
    discipline.Keeps state (Interpreter.operatorOf node) fun _ _ => True := by
  cases node with
  | operator symbol =>
      rw [Interpreter.operatorOf]
      split
      · exact Keeps.pure fun _ => trivial
      · exact Keeps.fail _
  | _ => exact Keeps.fail _

/-- One step obeys a discipline if what lies inside the node does. -/
theorem governs_step (interpreter : Interpreter) (governs : discipline.Governs eval) :
    discipline.Governs (interpreter.step eval) := by
  intro state scope node held
  have name : ∀ text : String,
      discipline.Keeps state (do return (← Run.lookup scope text).getD (.string text))
        discipline.Admits := by
    intro text
    refine (Keeps.lookup text (discipline.readable_of_writable held)).bind ?_
    intro after found _ admits
    cases found with
    | none => exact Keeps.pure fun _ => trivial
    | some value => exact Keeps.pure fun _ => admits value rfl
  cases node with
  | expression applied left right =>
      refine (operatorOf_keeps applied).bind ?_
      intro after operator grown _
      exact (apply_keeps interpreter governs (discipline.writable_mono grown held)
        operator left right).tagged operator
  | operator symbol => exact Keeps.fail _
  | atom text => exact name text
  | accessor text => exact name text
  | constant value => exact Keeps.pure fun _ => admits_constant _ value
  | action label body => exact Keeps.pure fun _ cell captured => nomatch captured
  | template entries =>
      refine (materialize_keeps governs held entries).bind ?_
      intro after table _ admits
      exact (Keeps.alloc admits).bind fun _ _ _ writable => Keeps.pure fun _ => writable

/-- Evaluation obeys every discipline, however deeply it nests. -/
theorem governs_evaluate (interpreter : Interpreter) (depth : Nat) :
    discipline.Governs (interpreter.evaluate depth) := by
  induction depth with
  | zero => exact fun _ _ _ _ => Keeps.unfinished
  | succ depth inductionHypothesis => exact governs_step interpreter inductionHypothesis

theorem execute_keeps (interpreter : Interpreter) (program : Program) {initial : Cell}
    (readable : discipline.readable state.heap.size initial) :
    discipline.Keeps state (interpreter.execute program initial) discipline.writable :=
  program_keeps (governs_evaluate interpreter interpreter.depth) program readable

end Discipline

end Tabula
