import Mathlib.Data.List.Forall2
import Tabula.Evaluation
import Tabula.Proofs.Relabelling

/-!
# Programs are read back as they were written

A node has several written forms: a template keyed by positions may be written as an array, and an
operand that is void may be written as null or left out. Every written form of a node is read as
that node, but for the labels of its actions, which are the places in the tree that was read.

Two things are lost in writing. A template with a repeated key has no object, and a number is
written with digits that need not be read as the same number. Programs that were read have no such
templates, so they can be written and read again.
-/

namespace Tabula

namespace Node

/-! ## Nodes within a node -/

mutual

/-- A node and all nodes below it, those in the bodies of its actions among them. -/
def subnodes : Node → List Node
  | expression applied left right =>
      expression applied left right :: (applied.subnodes ++ left.subnodes ++ right.subnodes)
  | action label body => action label body :: subnodesOfAll body
  | template entries => template entries :: subnodesOfEntries entries
  | leaf => [leaf]

def subnodesOfAll : List Node → List Node
  | [] => []
  | node :: rest => node.subnodes ++ subnodesOfAll rest

def subnodesOfEntries : List (String × Node) → List Node
  | [] => []
  | (_, entry) :: rest => entry.subnodes ++ subnodesOfEntries rest

end

/-- No template among the nodes repeats a key. -/
def DistinctTemplates (nodes : List Node) : Prop :=
  ∀ entries, template entries ∈ nodes → Table.Distinct entries

/-- The numbers among the nodes are written with digits that are read as the same number. -/
def ExactNumbers (nodes : List Node) : Prop :=
  ∀ value, constant (.number value) ∈ nodes → (Json.Number.ofFloat value).toFloat = value

/-- Nothing is lost when the nodes are written. -/
structure Recoverable (nodes : List Node) : Prop where
  distinct : DistinctTemplates nodes
  exact : ExactNumbers nodes

theorem Recoverable.mono {outer inner : List Node} (recoverable : Recoverable outer)
    (within : inner ⊆ outer) : Recoverable inner where
  distinct entries member := recoverable.distinct entries (within member)
  exact value member := recoverable.exact value (within member)

theorem mem_subnodesOfAll {nodes : List Node} {inner : Node} :
    inner ∈ subnodesOfAll nodes ↔ ∃ node ∈ nodes, inner ∈ node.subnodes := by
  induction nodes with
  | nil => simp [subnodesOfAll]
  | cons node rest inductionHypothesis => simp [subnodesOfAll, inductionHypothesis]

theorem mem_subnodesOfEntries {entries : List (String × Node)} {inner : Node} :
    inner ∈ subnodesOfEntries entries ↔
      ∃ node ∈ Table.values entries, inner ∈ node.subnodes := by
  induction entries with
  | nil => simp [subnodesOfEntries, Table.values]
  | cons entry rest inductionHypothesis =>
      simp [subnodesOfEntries, Table.values, inductionHypothesis]

theorem subnodes_expression (applied left right : Node) :
    applied.subnodes ⊆ (expression applied left right).subnodes ∧
      left.subnodes ⊆ (expression applied left right).subnodes ∧
      right.subnodes ⊆ (expression applied left right).subnodes := by
  refine ⟨?_, ?_, ?_⟩ <;> intro inner member <;> simp [subnodes, member]

/-! ## Nodes that differ in labels only -/

/-- The node with all labels blotted out. -/
def unlabelled (node : Node) : Node := node.relabelled fun _ => ⟨0, []⟩

/-- The nodes are the same but for their labels. -/
def Alike (first second : Node) : Prop := first.unlabelled = second.unlabelled

/-- The entries have the same key, and nodes that are the same but for their labels. -/
def AlikeEntry (first second : String × Node) : Prop :=
  first.1 = second.1 ∧ first.2.Alike second.2

theorem map_unlabelled_of_alike {first second : List Node}
    (alike : List.Forall₂ Alike first second) :
    first.map unlabelled = second.map unlabelled := by
  induction alike with
  | nil => rfl
  | cons same _ inductionHypothesis => rw [List.map_cons, List.map_cons, same, inductionHypothesis]

theorem relabelledAll_of_alike {first second : List Node}
    (alike : List.Forall₂ Alike first second) :
    relabelledAll (fun _ => ⟨0, []⟩) first = relabelledAll (fun _ => ⟨0, []⟩) second := by
  have same := map_unlabelled_of_alike alike
  rw [relabelledAll_eq_map, relabelledAll_eq_map]
  exact same

theorem Alike.expression {applied left right applied' left' right' : Node}
    (sameApplied : applied.Alike applied') (sameLeft : left.Alike left')
    (sameRight : right.Alike right') :
    (expression applied left right).Alike (expression applied' left' right') := by
  rw [Alike, unlabelled] at sameApplied sameLeft sameRight ⊢
  rw [relabelled, sameApplied, sameLeft, sameRight]
  rfl

theorem Alike.action {body body' : List Node} (label label' : Label)
    (alike : List.Forall₂ Alike body body') :
    (action label body).Alike (action label' body') := by
  rw [Alike, unlabelled, unlabelled, relabelled, relabelled, relabelledAll_of_alike alike]

theorem Alike.list {elements elements' : List Node}
    (alike : List.Forall₂ Alike elements elements') : (list elements).Alike (list elements') := by
  have same := map_unlabelled_of_alike alike
  rw [Alike, unlabelled, unlabelled, relabelled_list, relabelled_list]
  exact congrArg Node.list same

theorem Alike.template {entries entries' : List (String × Node)}
    (alike : List.Forall₂ AlikeEntry entries entries') :
    (template entries).Alike (template entries') := by
  have same : relabelledEntries (fun _ => ⟨0, []⟩) entries =
      relabelledEntries (fun _ => ⟨0, []⟩) entries' := by
    induction alike with
    | nil => rfl
    | @cons entry entry' rest rest' first _ inductionHypothesis =>
        obtain ⟨key, node⟩ := entry
        obtain ⟨key', node'⟩ := entry'
        obtain ⟨rfl, sameNode⟩ := first
        rw [Alike, unlabelled, unlabelled] at sameNode
        rw [relabelledEntries, relabelledEntries, sameNode, inductionHypothesis]
  rw [Alike, unlabelled, unlabelled, relabelled, relabelled, same]

theorem keys_of_alike {entries entries' : List (String × Node)}
    (alike : List.Forall₂ AlikeEntry entries entries') :
    Table.keys entries = Table.keys entries' := by
  induction alike with
  | nil => rfl
  | cons first _ inductionHypothesis =>
      exact congrArg₂ List.cons first.1 inductionHypothesis

theorem mem_subnodesOfEntries_positioned {position : Nat} {elements : List Node}
    {inner : Node} :
    inner ∈ subnodesOfEntries (Table.positioned position elements) ↔
      inner ∈ subnodesOfAll elements := by
  rw [mem_subnodesOfEntries, mem_subnodesOfAll, Table.values_positioned]

/-! ## Written forms -/

mutual

/-- The tree is a written form of the node. -/
inductive Written : Node → Json → Prop
  | expression {applied left right : Node} {appliedTree : Json}
      {leftMembers rightMembers : List (String × Json)} :
      Written applied appliedTree →
      WrittenOperand "left" left leftMembers →
      WrittenOperand "right" right rightMembers →
      Written (expression applied left right)
        (tagged "EXPRESSION" (("operator", appliedTree) :: (leftMembers ++ rightMembers)))
  | operator (symbol : String) : Written (operator symbol) (operator symbol).toJson
  | atom (name : String) : Written (atom name) (atom name).toJson
  | accessor (name : String) : Written (accessor name) (accessor name).toJson
  | constant (value : Constant) : Written (constant value) (constant value).toJson
  | action {body : List Node} {trees : List Json} (label : Label) :
      WrittenAll body trees →
      Written (action label body) (tagged "ACTION" [("value", .array trees)])
  | template {entries : List (String × Node)} {members : List (String × Json)} :
      WrittenEntries entries members →
      Written (template entries) (tagged "STRUCT" [("value", .object members)])
  | list {elements : List Node} {trees : List Json} :
      WrittenAll elements trees →
      Written (list elements) (tagged "STRUCT" [("value", .array trees)])

/-- The members that an operand under a key has in the object of its expression. -/
inductive WrittenOperand : String → Node → List (String × Json) → Prop
  | written {node : Node} {tree : Json} (key : String) :
      Written node tree → WrittenOperand key node [(key, tree)]
  | null (key : String) : WrittenOperand key void [(key, .null)]
  | absent (key : String) : WrittenOperand key void []

inductive WrittenAll : List Node → List Json → Prop
  | nil : WrittenAll [] []
  | cons {node : Node} {nodes : List Node} {tree : Json} {trees : List Json} :
      Written node tree → WrittenAll nodes trees → WrittenAll (node :: nodes) (tree :: trees)

inductive WrittenEntries : List (String × Node) → List (String × Json) → Prop
  | nil : WrittenEntries [] []
  | cons {node : Node} {entries : List (String × Node)} {tree : Json}
      {members : List (String × Json)} (key : String) :
      Written node tree → WrittenEntries entries members →
      WrittenEntries ((key, node) :: entries) ((key, tree) :: members)

end

mutual

theorem written_toJson (node : Node) : node.Written node.toJson := by
  cases node with
  | expression applied left right =>
      rw [toJson]
      exact .expression (written_toJson applied) (.written "left" (written_toJson left))
        (.written "right" (written_toJson right))
  | operator symbol => exact .operator symbol
  | atom name => exact .atom name
  | accessor name => exact .accessor name
  | constant value => exact .constant value
  | action label body =>
      rw [toJson]
      exact .action label (writtenAll_elementsToJson body)
  | template entries =>
      rw [toJson]
      exact .template (writtenEntries_entriesToJson entries)

theorem writtenAll_elementsToJson (nodes : List Node) :
    WrittenAll nodes (elementsToJson nodes) := by
  cases nodes with
  | nil => exact .nil
  | cons node rest => exact .cons (written_toJson node) (writtenAll_elementsToJson rest)

theorem writtenEntries_entriesToJson (entries : List (String × Node)) :
    WrittenEntries entries (entriesToJson entries) := by
  cases entries with
  | nil => exact .nil
  | cons entry rest =>
      exact .cons entry.1 (written_toJson entry.2) (writtenEntries_entriesToJson rest)

end

/-! ## Reading written forms -/

theorem ofJson_expression (place : Label) (members : List (String × Json)) :
    ofJson place (tagged "EXPRESSION" members) = (do
      let applied ← ofJson (place.child 0) (Json.member members "operator")
      let left ← ofOperand (place.child 1) (Json.member members "left")
      let right ← ofOperand (place.child 2) (Json.member members "right")
      return expression applied left right) := by
  rw [tagged, ofJson]
  rfl

theorem ofJson_struct (place : Label) (tree : Json) :
    ofJson place (tagged "STRUCT" [("value", tree)]) = ofStruct place tree := by
  rw [tagged, ofJson]
  rfl

theorem ofJson_action (place : Label) (trees : List Json) :
    ofJson place (tagged "ACTION" [("value", .array trees)]) =
      action place <$> ofElements place 0 trees := by
  rw [tagged, ofJson]
  exact ofAction.eq_1 place trees

/-- Leaves are read as they were written. -/
theorem ofJson_constant (place : Label) {value : Constant}
    (exact : ExactNumbers [constant value]) :
    ofJson place (constant value).toJson = .ok (constant value) := by
  cases value with
  | number value =>
      have same := exact value List.mem_cons_self
      rw [toJson, tagged, ofJson]
      exact congrArg (fun number => Except.ok (constant (.number number))) same
  | _ =>
      rw [toJson, tagged, ofJson]
      rfl

/-- An operand that is not null is read like any other node. -/
theorem ofOperand_of_ok {place : Label} {tree : Json} {node : Node}
    (read : ofJson place tree = .ok node) : ofOperand place tree = .ok node := by
  cases tree with
  | null => simp only [ofJson, reduceCtorEq] at read
  | _ =>
      simp only [ofOperand]
      exact read

/-- The members of one operand do not hide those of the other. -/
theorem member_operands {left right : Node} {leftMembers rightMembers : List (String × Json)}
    (tree : Json) (writtenLeft : WrittenOperand "left" left leftMembers)
    (writtenRight : WrittenOperand "right" right rightMembers) :
    Json.member (("operator", tree) :: (leftMembers ++ rightMembers)) "left" =
        Json.member leftMembers "left" ∧
      Json.member (("operator", tree) :: (leftMembers ++ rightMembers)) "right" =
        Json.member rightMembers "right" := by
  cases writtenLeft <;> cases writtenRight <;> exact ⟨rfl, rfl⟩

mutual

theorem Written.reads {node : Node} {tree : Json} :
    node.Written tree → Recoverable node.subnodes → ∀ place : Label,
      ∃ read, ofJson place tree = .ok read ∧ read.Alike node
  | @Written.expression applied left right appliedTree leftMembers rightMembers writtenApplied
      writtenLeft writtenRight, recoverable, place => by
      obtain ⟨inApplied, inLeft, inRight⟩ := subnodes_expression applied left right
      obtain ⟨readApplied, isApplied, sameApplied⟩ :=
        writtenApplied.reads (recoverable.mono inApplied) (place.child 0)
      obtain ⟨readLeft, isLeft, sameLeft⟩ :=
        writtenLeft.reads (recoverable.mono inLeft) (place.child 1)
      obtain ⟨readRight, isRight, sameRight⟩ :=
        writtenRight.reads (recoverable.mono inRight) (place.child 2)
      have operands := member_operands appliedTree writtenLeft writtenRight
      have isOperator : Json.member (("operator", appliedTree) :: (leftMembers ++ rightMembers))
          "operator" = appliedTree := rfl
      refine ⟨expression readApplied readLeft readRight, ?_,
        .expression sameApplied sameLeft sameRight⟩
      rw [ofJson_expression, operands.1, operands.2, isOperator, isApplied, isLeft, isRight]
      rfl
  | .operator symbol, _, place => by
      refine ⟨operator symbol, ?_, rfl⟩
      rw [toJson, tagged, ofJson]
      rfl
  | .atom name, _, place => by
      refine ⟨atom name, ?_, rfl⟩
      rw [toJson, tagged, ofJson]
      rfl
  | .accessor name, _, place => by
      refine ⟨accessor name, ?_, rfl⟩
      rw [toJson, tagged, ofJson]
      rfl
  | .constant value, recoverable, place =>
      ⟨constant value, ofJson_constant place recoverable.exact, rfl⟩
  | @Written.action body _ label writtenBody, recoverable, place => by
      rw [subnodes] at recoverable
      obtain ⟨read, isRead, same⟩ :=
        writtenBody.reads (recoverable.mono (List.subset_cons_self _ _)) place 0
      refine ⟨action place read, ?_, .action place label same⟩
      rw [ofJson_action, isRead]
      rfl
  | @Written.template entries _ writtenEntries, recoverable, place => by
      rw [subnodes] at recoverable
      obtain ⟨read, isRead, same⟩ :=
        writtenEntries.reads (recoverable.mono (List.subset_cons_self _ _)) place 0
      have distinct : Table.Distinct read := by
        rw [Table.Distinct, keys_of_alike same]
        exact recoverable.distinct entries List.mem_cons_self
      have unchanged : Table.ofList read = read := Table.overlay_of_distinct distinct
      refine ⟨template read, ?_, .template same⟩
      rw [ofJson_struct, ofStruct, isRead]
      exact congrArg (Except.ok ∘ template) unchanged
  | @Written.list elements _ writtenElements, recoverable, place => by
      have within : subnodesOfAll elements ⊆ (list elements).subnodes := fun inner member =>
        List.mem_cons_of_mem _ (mem_subnodesOfEntries_positioned.mpr member)
      obtain ⟨read, isRead, same⟩ :=
        writtenElements.reads (recoverable.mono within) place 0
      refine ⟨list read, ?_, .list same⟩
      rw [ofJson_struct, ofStruct, isRead]
      rfl

theorem WrittenOperand.reads {key : String} {node : Node} {members : List (String × Json)} :
    WrittenOperand key node members → Recoverable node.subnodes → ∀ place : Label,
      ∃ read, ofOperand place (Json.member members key) = .ok read ∧ read.Alike node
  | @WrittenOperand.written node tree key written, recoverable, place => by
      obtain ⟨read, isRead, same⟩ := written.reads recoverable place
      have isMember : Json.member [(key, tree)] key = tree := by
        rw [Json.member, Table.get?, if_pos rfl]
        rfl
      rw [isMember]
      exact ⟨read, ofOperand_of_ok isRead, same⟩
  | .null key, _, place => by
      have isMember : Json.member [(key, .null)] key = .null := by
        rw [Json.member, Table.get?, if_pos rfl]
        rfl
      rw [isMember, ofOperand]
      exact ⟨void, rfl, rfl⟩
  | .absent key, _, place => by
      have isMember : Json.member [] key = .null := rfl
      rw [isMember, ofOperand]
      exact ⟨void, rfl, rfl⟩

theorem WrittenAll.reads {nodes : List Node} {trees : List Json} :
    WrittenAll nodes trees → Recoverable (subnodesOfAll nodes) →
      ∀ (place : Label) (position : Nat),
        ∃ read, ofElements place position trees = .ok read ∧ List.Forall₂ Alike read nodes
  | .nil, _, place, position => by
      rw [ofElements]
      exact ⟨[], rfl, .nil⟩
  | .cons writtenFirst writtenRest, recoverable, place, position => by
      rw [subnodesOfAll] at recoverable
      obtain ⟨first, isFirst, sameFirst⟩ :=
        writtenFirst.reads (recoverable.mono (List.subset_append_left _ _)) (place.child position)
      obtain ⟨rest, isRest, sameRest⟩ :=
        writtenRest.reads (recoverable.mono (List.subset_append_right _ _)) place (position + 1)
      refine ⟨first :: rest, ?_, .cons sameFirst sameRest⟩
      rw [ofElements, isFirst, isRest]
      rfl

theorem WrittenEntries.reads {entries : List (String × Node)} {members : List (String × Json)} :
    WrittenEntries entries members → Recoverable (subnodesOfEntries entries) →
      ∀ (place : Label) (position : Nat),
        ∃ read, ofEntries place position members = .ok read ∧
          List.Forall₂ AlikeEntry read entries
  | .nil, _, place, position => by
      rw [ofEntries]
      exact ⟨[], rfl, .nil⟩
  | .cons key writtenFirst writtenRest, recoverable, place, position => by
      rw [subnodesOfEntries] at recoverable
      obtain ⟨first, isFirst, sameFirst⟩ :=
        writtenFirst.reads (recoverable.mono (List.subset_append_left _ _)) (place.child position)
      obtain ⟨rest, isRest, sameRest⟩ :=
        writtenRest.reads (recoverable.mono (List.subset_append_right _ _)) place (position + 1)
      refine ⟨(key, first) :: rest, ?_, .cons ⟨rfl, sameFirst⟩ sameRest⟩
      rw [ofEntries, isFirst, isRest]
      rfl

end

/-! ## Arrays and objects -/

/-- Items are read alike whether they stand in an array or under their positions in an object. -/
theorem ofEntries_positioned (place : Label) (position : Nat) (trees : List Json) (first : Nat) :
    ofEntries place position (Table.positioned first trees) =
      Table.positioned first <$> ofElements place position trees := by
  induction trees generalizing position first with
  | nil =>
      have empty : Table.positioned first ([] : List Json) = [] := rfl
      rw [empty, ofEntries, ofElements]
      rfl
  | cons tree rest inductionHypothesis =>
      rw [Table.positioned_cons, ofEntries, ofElements, inductionHypothesis]
      cases ofJson (place.child position) tree with
      | error fault => rfl
      | ok node => cases ofElements place (position + 1) rest <;> rfl

theorem ofStruct_array (place : Label) (trees : List Json) :
    ofStruct place (.array trees) = ofStruct place (.object (Table.positioned 0 trees)) := by
  rw [ofStruct, ofStruct, ofEntries_positioned]
  cases ofElements place 0 trees with
  | error fault => rfl
  | ok nodes =>
      have unchanged : Table.ofList (Table.positioned 0 nodes) = Table.positioned 0 nodes :=
        Table.overlay_of_distinct (Table.distinct_positioned 0 nodes)
      exact congrArg (Except.ok ∘ template) unchanged.symm

/-! ## What is read can be written -/

theorem distinctTemplates_leaf {node : Node} (leaf : node.subnodes = [node])
    (noTemplate : ∀ entries, node ≠ template entries) : DistinctTemplates node.subnodes := by
  intro entries member
  rw [leaf, List.mem_singleton] at member
  exact absurd member.symm (noTemplate entries)

theorem DistinctTemplates.template {entries : List (String × Node)}
    (distinct : Table.Distinct entries)
    (below : DistinctTemplates (subnodesOfEntries entries)) :
    DistinctTemplates (template entries).subnodes := by
  intro others member
  rw [subnodes, List.mem_cons] at member
  rcases member with here | inside
  · cases here
    exact distinct
  · exact below others inside

theorem DistinctTemplates.append {first second : List Node} (left : DistinctTemplates first)
    (right : DistinctTemplates second) : DistinctTemplates (first ++ second) := by
  intro entries member
  exact (List.mem_append.mp member).elim (left entries) (right entries)

/-- A template keyed by the last of equal keys holds nodes that were read. -/
theorem DistinctTemplates.ofList {entries : List (String × Node)}
    (below : DistinctTemplates (subnodesOfEntries entries)) :
    DistinctTemplates (Node.template (Table.ofList entries)).subnodes := by
  have distinct : Table.Distinct (Table.ofList entries) :=
    @Table.Distinct.overlay _ [] List.nodup_nil entries
  refine .template distinct fun others member => ?_
  obtain ⟨node, isValue, inside⟩ := mem_subnodesOfEntries.mp member
  have old : node ∈ Table.values entries :=
    (Table.mem_values_overlay isValue).resolve_right List.not_mem_nil
  exact below others (mem_subnodesOfEntries.mpr ⟨node, old, inside⟩)

theorem bind_eq_ok {ε α β : Type} {first : Except ε α} {next : α → Except ε β}
    {result : β} (done : first >>= next = .ok result) :
    ∃ value, first = .ok value ∧ next value = .ok result := by
  cases first with
  | error fault => exact nomatch done
  | ok value => exact ⟨value, rfl, done⟩

theorem map_eq_ok {ε α β : Type} {first : Except ε α} {change : α → β} {result : β}
    (done : change <$> first = .ok result) :
    ∃ value, first = .ok value ∧ change value = result := by
  cases first with
  | error fault => exact nomatch done
  | ok value => exact ⟨value, rfl, Except.ok.inj done⟩

mutual

theorem distinct_ofJson (place : Label) (json : Json) :
    ∀ {node : Node}, ofJson place json = .ok node → DistinctTemplates node.subnodes := by
  cases json with
  | object members =>
      intro node read
      rw [ofJson] at read
      cases isTag : Json.member members "type" with
      | string tag =>
          rw [isTag] at read
          dsimp only at read
          split at read
          · obtain ⟨applied, isApplied, read⟩ := bind_eq_ok read
            obtain ⟨left, isLeft, read⟩ := bind_eq_ok read
            obtain ⟨right, isRight, read⟩ := bind_eq_ok read
            cases read
            have below := ((distinct_ofJson (place.child 0) _ isApplied).append
              (distinct_ofOperand (place.child 1) _ isLeft)).append
              (distinct_ofOperand (place.child 2) _ isRight)
            intro entries member
            rw [subnodes, List.mem_cons] at member
            exact below entries (member.resolve_left nofun)
          · obtain ⟨symbol, -, rfl⟩ := map_eq_ok read
            exact distinctTemplates_leaf (by simp only [subnodes]) nofun
          · obtain ⟨name, -, rfl⟩ := map_eq_ok read
            exact distinctTemplates_leaf (by simp only [subnodes]) nofun
          · obtain ⟨name, -, rfl⟩ := map_eq_ok read
            exact distinctTemplates_leaf (by simp only [subnodes]) nofun
          · obtain ⟨text, -, rfl⟩ := map_eq_ok read
            exact distinctTemplates_leaf (by simp only [Function.comp, subnodes]) nofun
          · split at read <;> cases read
            exact distinctTemplates_leaf (by simp only [subnodes]) nofun
          · split at read <;> cases read
            exact distinctTemplates_leaf (by simp only [subnodes]) nofun
          · cases read
            exact distinctTemplates_leaf (by simp only [void, subnodes]) nofun
          · exact distinct_ofStruct place _ read
          · exact distinct_ofAction place _ read
          · exact nomatch read
      | _ =>
          rw [isTag] at read
          exact nomatch read
  | _ =>
      intro node read
      simp only [ofJson, reduceCtorEq] at read
termination_by (sizeOf json, 0)
decreasing_by
  · exact Prod.Lex.left _ _ (Json.sizeOf_member_lt members "operator")
  · exact Prod.Lex.left _ _ (Json.sizeOf_member_lt members "left")
  · exact Prod.Lex.left _ _ (Json.sizeOf_member_lt members "right")
  · exact Prod.Lex.left _ _ (Json.sizeOf_member_lt members "value")
  · exact Prod.Lex.left _ _ (Json.sizeOf_member_lt members "value")

theorem distinct_ofOperand (place : Label) (json : Json) :
    ∀ {node : Node}, ofOperand place json = .ok node → DistinctTemplates node.subnodes := by
  cases json with
  | null =>
      intro node read
      rw [ofOperand] at read
      cases read
      exact distinctTemplates_leaf (by simp only [void, subnodes]) nofun
  | _ =>
      intro node read
      simp only [ofOperand] at read
      exact distinct_ofJson place _ read
termination_by (sizeOf json, 1)

theorem distinct_ofStruct (place : Label) (json : Json) :
    ∀ {node : Node}, ofStruct place json = .ok node → DistinctTemplates node.subnodes := by
  cases json with
  | array trees =>
      intro node read
      rw [ofStruct] at read
      obtain ⟨elements, isElements, rfl⟩ := map_eq_ok read
      have below := distinct_ofElements place 0 trees isElements
      exact .template (Table.distinct_positioned 0 elements) fun entries member =>
        below entries (mem_subnodesOfEntries_positioned.mp member)
  | object members =>
      intro node read
      rw [ofStruct] at read
      obtain ⟨entries, isEntries, rfl⟩ := map_eq_ok read
      exact (distinct_ofEntries place 0 members isEntries).ofList
  | _ =>
      intro node read
      simp only [ofStruct, reduceCtorEq] at read
termination_by (sizeOf json, 0)

theorem distinct_ofAction (place : Label) (json : Json) :
    ∀ {node : Node}, ofAction place json = .ok node → DistinctTemplates node.subnodes := by
  cases json with
  | array trees =>
      intro node read
      rw [ofAction] at read
      obtain ⟨body, isBody, rfl⟩ := map_eq_ok read
      intro entries member
      rw [subnodes, List.mem_cons] at member
      exact distinct_ofElements place 0 trees isBody entries (member.resolve_left nofun)
  | _ =>
      intro node read
      simp only [ofAction, reduceCtorEq] at read
termination_by (sizeOf json, 0)

theorem distinct_ofElements (place : Label) (position : Nat) (trees : List Json) :
    ∀ {nodes : List Node}, ofElements place position trees = .ok nodes →
      DistinctTemplates (subnodesOfAll nodes) := by
  cases trees with
  | nil =>
      intro nodes read
      rw [ofElements] at read
      cases read
      exact fun entries member => absurd member List.not_mem_nil
  | cons tree rest =>
      intro nodes read
      rw [ofElements] at read
      obtain ⟨first, isFirst, read⟩ := bind_eq_ok read
      obtain ⟨others, isOthers, read⟩ := bind_eq_ok read
      cases read
      exact (distinct_ofJson (place.child position) tree isFirst).append
        (distinct_ofElements place (position + 1) rest isOthers)
termination_by (sizeOf trees, 0)

theorem distinct_ofEntries (place : Label) (position : Nat) (members : List (String × Json)) :
    ∀ {entries : List (String × Node)}, ofEntries place position members = .ok entries →
      DistinctTemplates (subnodesOfEntries entries) := by
  cases members with
  | nil =>
      intro entries read
      rw [ofEntries] at read
      cases read
      exact fun others member => absurd member List.not_mem_nil
  | cons member rest =>
      obtain ⟨key, tree⟩ := member
      intro entries read
      rw [ofEntries] at read
      obtain ⟨first, isFirst, read⟩ := bind_eq_ok read
      obtain ⟨others, isOthers, read⟩ := bind_eq_ok read
      cases read
      exact (distinct_ofJson (place.child position) tree isFirst).append
        (distinct_ofEntries place (position + 1) rest isOthers)
termination_by (sizeOf members, 0)

end

end Node

/-! ## Literals -/

/-- The value is a number, a text, a boolean, void, or an action without a captured scope. -/
def Value.Plain : Value → Prop
  | .number _ | .string _ | .bool _ | .void => True
  | .action block => block.scope = none
  | _ => False

namespace Node

/-- Whatever evaluates a literal among the nodes gets a plain value at once. -/
def PlainLiterals (nodes : List Node) : Prop :=
  ∀ node ∈ nodes, node.kind = .literal →
    ∀ (interpreter : Interpreter) (depth : Nat) (scope : Cell) (state : State),
      ∃ value : Value, value.Plain ∧
        (interpreter.evaluate (depth + 1) scope node).from? state = some (.ok value, state)

theorem plainLiterals (nodes : List Node) : PlainLiterals nodes := by
  intro node _ isLiteral interpreter depth scope state
  cases node with
  | constant value => exact ⟨value.value, by cases value <;> trivial, rfl⟩
  | action label body => exact ⟨.action { label, body }, rfl, rfl⟩
  | _ => exact nomatch isLiteral

end Node

/-! ## Programs -/

namespace Program

open Node

theorem reads_of_written {program : Program} {trees : List Json}
    (written : List.Forall₂ Written program trees)
    (recoverable : Recoverable (subnodesOfAll program)) (stamp : Nat) :
    ∃ read, ofJson stamp (.array trees) = .ok read ∧ List.Forall₂ Alike read program := by
  have writtenAll : WrittenAll program trees := by
    clear recoverable
    induction written with
    | nil => exact .nil
    | cons first _ inductionHypothesis => exact .cons first inductionHypothesis
  exact writtenAll.reads recoverable ⟨stamp, []⟩ 0

theorem distinct_ofJson {stamp : Nat} {tree : Json} {program : Program}
    (read : ofJson stamp tree = .ok program) : DistinctTemplates (subnodesOfAll program) := by
  cases tree with
  | array trees => exact distinct_ofElements ⟨stamp, []⟩ 0 trees read
  | _ =>
      simp only [ofJson] at read
      obtain ⟨node, isNode, rfl⟩ := map_eq_ok read
      rw [subnodesOfAll, subnodesOfAll, List.append_nil]
      exact Node.distinct_ofJson ⟨stamp, []⟩ _ isNode

theorem forall₂_written (program : Program) :
    List.Forall₂ Written program (elementsToJson program) := by
  induction program with
  | nil => exact .nil
  | cons node rest inductionHypothesis => exact .cons (written_toJson node) inductionHypothesis

end Program

open Node in
/-- Every written form of a node or a program, in which void operands may be null or missing, is
read as that node or program, but for the labels of actions; and a struct keyed by positions is read
alike as an array and as an object. Whatever is read has plain literals and no repeated keys in
templates, so it is read again when it is written, if its numbers are. -/
theorem written_programs_are_read_back (place : Label) (stamp : Nat) :
    (∀ node : Node, node.Written node.toJson ∧
      ∀ tree, node.Written tree → Recoverable node.subnodes →
        ∃ read, ofJson place tree = .ok read ∧ read.Alike node) ∧
    (∀ trees : List Json,
      ofJson place (tagged "STRUCT" [("value", .array trees)]) =
        ofJson place (tagged "STRUCT" [("value", .object (Table.positioned 0 trees))])) ∧
    (∀ (program : Program) (trees : List Json),
      List.Forall₂ Written program trees → Recoverable (subnodesOfAll program) →
        ∃ read, Program.ofJson stamp (.array trees) = .ok read ∧
          List.Forall₂ Alike read program) ∧
    (∀ (tree : Json) (node : Node), ofJson place tree = .ok node →
      PlainLiterals node.subnodes ∧ DistinctTemplates node.subnodes ∧
        (ExactNumbers node.subnodes →
          ∃ again, ofJson place node.toJson = .ok again ∧ again.Alike node)) ∧
    (∀ (tree : Json) (program : Program), Program.ofJson stamp tree = .ok program →
      PlainLiterals (subnodesOfAll program) ∧ DistinctTemplates (subnodesOfAll program) ∧
        (ExactNumbers (subnodesOfAll program) →
          ∃ again, Program.ofJson stamp program.toJson = .ok again ∧
            List.Forall₂ Alike again program)) := by
  refine ⟨?_, ?_, ?_, ?_, ?_⟩
  · intro node
    exact ⟨written_toJson node, fun tree written recoverable => written.reads recoverable place⟩
  · intro trees
    rw [ofJson_struct, ofJson_struct, ofStruct_array]
  · intro program trees written recoverable
    exact Program.reads_of_written written recoverable stamp
  · intro tree node read
    have distinct := distinct_ofJson place tree read
    refine ⟨plainLiterals _, distinct, fun exact => ?_⟩
    exact (written_toJson node).reads ⟨distinct, exact⟩ place
  · intro tree program read
    have distinct := Program.distinct_ofJson read
    refine ⟨plainLiterals _, distinct, fun exact => ?_⟩
    exact Program.reads_of_written (Program.forall₂_written program) ⟨distinct, exact⟩ stamp

/-- A template that holds an action, which negates a number, and a list. -/
private def sample : Node :=
  .template [
    ("run", .action ⟨7, [4]⟩ [.expression (.operator "-") .void (.constant (.number 1.5))]),
    ("names", .list [.atom "x", .constant (.bool true)])]

/-- A written form of it, without the left operand and with an array for the list. -/
private def sampleTree : Json :=
  Node.tagged "STRUCT" [("value", .object [
    ("run", Node.tagged "ACTION" [("value", .array [
      Node.tagged "EXPRESSION" [
        ("operator", (Node.operator "-").toJson),
        ("right", (Node.constant (.number 1.5)).toJson)]])]),
    ("names", Node.tagged "STRUCT" [("value", .array [
      (Node.atom "x").toJson, (Node.constant (.bool true)).toJson])])])]

theorem negation_without_left_operand_is_read :
    (∃ read, Node.ofJson ⟨0, []⟩ sampleTree = .ok read ∧ read.Alike sample) ∧
      (∃ read, Program.ofJson 0 (.array [sampleTree]) = .ok read ∧
        List.Forall₂ Node.Alike read [sample] ∧
        Node.DistinctTemplates (Node.subnodesOfAll read)) ∧
      ∃ again, Program.ofJson 0 (Program.toJson [.constant (.number 1.5)]) = .ok again ∧
        List.Forall₂ Node.Alike again [.constant (.number 1.5)] := by
  have laws := written_programs_are_read_back ⟨0, []⟩ 0
  have exactNumber : (Json.Number.ofFloat 1.5).toFloat = 1.5 := by decide +kernel
  have written : sample.Written sampleTree :=
    .template (.cons "run"
      (.action _ (.cons (.expression (.operator "-") (.absent "left")
        (.written "right" (.constant _))) .nil))
      (.cons "names" (.list (.cons (.atom "x") (.cons (.constant _) .nil))) .nil))
  have recoverable : Node.Recoverable (Node.subnodesOfAll [sample]) := by
    constructor
    · intro entries member
      simp [sample, Node.subnodesOfAll, Node.subnodes, Node.subnodesOfEntries, Node.list,
        Node.void] at member
      rcases member with rfl | rfl
      · exact (by decide : ["run", "names"].Nodup)
      · exact Table.distinct_positioned 0 [.atom "x", .constant (.bool true)]
    · intro value member
      simp [sample, Node.subnodesOfAll, Node.subnodes, Node.subnodesOfEntries, Node.list,
        Node.void] at member
      exact member ▸ exactNumber
  have recoverableNode : Node.Recoverable sample.subnodes :=
    recoverable.mono (List.subset_append_left _ _)
  obtain ⟨read, isRead, alike⟩ :=
    laws.2.2.1 [sample] [sampleTree] (.cons written .nil) recoverable
  have distinct := (laws.2.2.2.2 _ read isRead).2.1
  have numberExact : Node.ExactNumbers [.constant (.number 1.5)] := by
    intro value member
    cases List.mem_singleton.mp member
    exact exactNumber
  have readNumber : Program.ofJson 0 (.array [(Node.constant (.number 1.5)).toJson]) =
      .ok [.constant (.number 1.5)] := by
    rw [Program.ofJson, Node.ofElements, Node.ofJson_constant _ numberExact, Node.ofElements]
    rfl
  have again := (laws.2.2.2.2 _ _ readNumber).2.2 numberExact
  have readNode := (laws.1 sample).2 sampleTree written recoverableNode
  exact ⟨readNode, ⟨read, isRead, alike, distinct⟩, again⟩

end Tabula
