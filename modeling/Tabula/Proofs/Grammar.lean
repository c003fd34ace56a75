import Tabula.Interchange
import Tabula.Run

/-!
# Which trees are programs

A tree holds a node at each of its node positions: at the top, under an operator, under an operand
that is neither missing nor null, at the entries of a struct and at the statements of an action.
What is asked of a position is asked of it alone: a known tag, and under `value` what the tag needs.

A tree is read as a program just if all its positions are sound. Otherwise the reading fails as a
whole, and the fault is that of the first position that is not sound, where a node comes before its
children and the children come in order.
-/

namespace Tabula

namespace Grammar

/-! ## What is asked of a position -/

/-- What a tag may need under `value`. -/
inductive ValueKind where
  | text
  | number
  | truth
  | entries
  | statements
deriving DecidableEq, Repr

namespace ValueKind

/-- Entries stand in an array or in an object, and statements in an array. -/
def admits : ValueKind → Json → Bool
  | text, .string _ => true
  | number, .number _ => true
  | truth, .bool _ => true
  | entries, .array _ => true
  | entries, .object _ => true
  | statements, .array _ => true
  | _, _ => false

/-- The fault of a node with this tag that has something else there. -/
def fault (tag : String) : ValueKind → NodeFault
  | text => .needsString tag
  | number => .needsNumber
  | truth => .needsBool
  | entries => .needsEntries
  | statements => .needsStatements

end ValueKind

/-- The tags of nodes. -/
def tags : List String :=
  ["EXPRESSION", "OPERATOR", "ATOM", "ACCESSOR", "STRING", "NUMBER", "BOOL", "VOID", "STRUCT",
    "ACTION"]

/-- What a tag needs under `value`, if it needs anything. -/
def needed? : String → Option ValueKind
  | "OPERATOR" | "ATOM" | "ACCESSOR" | "STRING" => some .text
  | "NUMBER" => some .number
  | "BOOL" => some .truth
  | "STRUCT" => some .entries
  | "ACTION" => some .statements
  | _ => none

/-- The tree is an object with a known tag and the value that the tag needs. What is no object has
no fields. -/
def Sound (tree : Json) : Prop :=
  ∃ tag ∈ tags, tree.field "type" = .string tag ∧
    ∀ kind, needed? tag = some kind → kind.admits (tree.field "value")

/-- What is wrong with the tree, its children aside. -/
inductive Faulty (tree : Json) : NodeFault → Prop
  | untagged : (∀ tag, tree.field "type" ≠ .string tag) → Faulty tree .untagged
  | unknownTag {tag : String} :
      tree.field "type" = .string tag → tag ∉ tags → Faulty tree (.unknownTag tag)
  | unfitValue {tag : String} {kind : ValueKind} :
      tree.field "type" = .string tag → needed? tag = some kind →
      kind.admits (tree.field "value") = false → Faulty tree (kind.fault tag)

/-! ## Positions in order -/

/-- The child positions of a node: the operator, also where it is missing, and the operands that are
neither missing nor null; the entries of a struct; the statements of an action. -/
def children (tree : Json) : List Json :=
  match tree.field "type" with
  | .string "EXPRESSION" =>
      tree.field "operator" ::
        [tree.field "left", tree.field "right"].filter fun operand => !operand.isNull
  | .string "STRUCT" =>
      match tree.field "value" with
      | .array elements => elements
      | .object entries => Table.values entries
      | _ => []
  | .string "ACTION" =>
      match tree.field "value" with
      | .array body => body
      | _ => []
  | _ => []

theorem sizeOf_field_lt {tree : Json} {tag : String} (tagged : tree.field "type" = .string tag)
    (key : String) : sizeOf (tree.field key) < sizeOf tree := by
  cases tree with
  | object members => exact Json.sizeOf_member_lt members key
  | _ => exact nomatch tagged

theorem sizeOf_lt_of_mem_array {tree child : Json} {elements : List Json}
    (smaller : sizeOf (Json.array elements) < sizeOf tree) (member : child ∈ elements) :
    sizeOf child < sizeOf tree := by
  have inside := List.sizeOf_lt_of_mem member
  simp only [Json.array.sizeOf_spec] at smaller
  omega

theorem sizeOf_lt_of_mem_object {tree child : Json} {entries : List (String × Json)}
    (smaller : sizeOf (Json.object entries) < sizeOf tree) (member : child ∈ Table.values entries) :
    sizeOf child < sizeOf tree := by
  obtain ⟨⟨key, value⟩, inEntries, rfl⟩ := List.mem_map.mp member
  have inside := List.sizeOf_lt_of_mem inEntries
  simp only [Json.object.sizeOf_spec, Prod.mk.sizeOf_spec] at smaller inside ⊢
  omega

theorem sizeOf_lt_of_mem_children {tree child : Json} (member : child ∈ children tree) :
    sizeOf child < sizeOf tree := by
  rw [children] at member
  split at member
  · rename_i tagged
    rcases List.mem_cons.mp member with rfl | operand
    · exact sizeOf_field_lt tagged _
    · rcases List.mem_cons.mp (List.mem_filter.mp operand).1 with rfl | last
      · exact sizeOf_field_lt tagged _
      · rw [List.mem_singleton.mp last]
        exact sizeOf_field_lt tagged _
  · rename_i tagged
    have smaller := sizeOf_field_lt tagged "value"
    split at member
    · rename_i elements isArray
      exact sizeOf_lt_of_mem_array (isArray ▸ smaller) member
    · rename_i entries isObject
      exact sizeOf_lt_of_mem_object (isObject ▸ smaller) member
    · exact absurd member List.not_mem_nil
  · rename_i tagged
    have smaller := sizeOf_field_lt tagged "value"
    split at member
    · rename_i body isArray
      exact sizeOf_lt_of_mem_array (isArray ▸ smaller) member
    · exact absurd member List.not_mem_nil
  · exact absurd member List.not_mem_nil

/-- All node positions of the tree of a node, a node before its children. -/
def positions (tree : Json) : List Json :=
  tree :: (children tree).attach.flatMap fun child => positions child.1
termination_by sizeOf tree
decreasing_by exact sizeOf_lt_of_mem_children child.2

theorem positions_eq (tree : Json) :
    positions tree = tree :: (children tree).flatMap positions := by
  rw [positions, List.flatMap_subtype (g := positions) (fun _ _ => rfl), List.unattach_attach]

/-- All node positions of a program: those of its statements, or of the single node that it is. -/
def programPositions : Json → List Json
  | .array statements => statements.flatMap positions
  | node => positions node

/-- The first position that is not sound has this fault. -/
def FirstFault (tree : Json) (fault : NodeFault) : Prop :=
  ∃ earlier node later, programPositions tree = earlier ++ node :: later ∧
    (∀ other ∈ earlier, Sound other) ∧ Faulty node fault

/-! ## The fault of a single position -/

/-- The fault that the tree has, its children aside. -/
def fault? (tree : Json) : Option NodeFault :=
  match tree.field "type" with
  | .string tag =>
      if tag ∈ tags then
        (needed? tag).bind fun kind =>
          if kind.admits (tree.field "value") then none else some (kind.fault tag)
      else some (.unknownTag tag)
  | _ => some .untagged

theorem fault?_of_tag {tree : Json} {tag : String} (tagged : tree.field "type" = .string tag)
    (known : tag ∈ tags) :
    fault? tree = (needed? tag).bind fun kind =>
      if kind.admits (tree.field "value") then none else some (kind.fault tag) := by
  simp only [fault?, tagged, if_pos known]

theorem fault?_of_untagged {tree : Json} (untagged : ∀ tag, tree.field "type" ≠ .string tag) :
    fault? tree = some .untagged := by
  rw [fault?]
  split
  · rename_i tag tagged
    exact absurd tagged (untagged tag)
  · rfl

theorem mem_tags_of_needed {tag : String} {kind : ValueKind} (needed : needed? tag = some kind) :
    tag ∈ tags := by
  unfold needed? at needed
  split at needed
  all_goals first | decide | exact nomatch needed

theorem sound_or_faulty (tree : Json) : Sound tree ∨ ∃ fault, Faulty tree fault := by
  by_cases tagged : ∃ tag, tree.field "type" = .string tag
  · obtain ⟨tag, tagged⟩ := tagged
    by_cases known : tag ∈ tags
    · by_cases fits : ∀ kind, needed? tag = some kind → kind.admits (tree.field "value")
      · exact Or.inl ⟨tag, known, tagged, fits⟩
      · obtain ⟨kind, notFits⟩ := Classical.not_forall.mp fits
        obtain ⟨needed, unfit⟩ := Classical.not_imp.mp notFits
        exact Or.inr ⟨kind.fault tag, .unfitValue tagged needed (Bool.eq_false_iff.mpr unfit)⟩
    · exact Or.inr ⟨.unknownTag tag, .unknownTag tagged known⟩
  · exact Or.inr ⟨.untagged, .untagged fun tag same => tagged ⟨tag, same⟩⟩

theorem fault?_eq_none_of_sound {tree : Json} (sound : Sound tree) : fault? tree = none := by
  obtain ⟨tag, known, tagged, fits⟩ := sound
  rw [fault?_of_tag tagged known]
  cases needed : needed? tag with
  | none => rfl
  | some kind => rw [Option.bind_some, if_pos (fits kind needed)]

theorem fault?_eq_some_of_faulty {tree : Json} {fault : NodeFault} (faulty : Faulty tree fault) :
    fault? tree = some fault := by
  cases faulty with
  | untagged untagged => exact fault?_of_untagged untagged
  | unknownTag tagged unknown => simp only [fault?, tagged, if_neg unknown]
  | unfitValue tagged needed unfit =>
      rw [fault?_of_tag tagged (mem_tags_of_needed needed), needed, Option.bind_some, unfit]
      rfl

theorem sound_of_fault?_eq_none {tree : Json} (noFault : fault? tree = none) : Sound tree := by
  rcases sound_or_faulty tree with sound | ⟨fault, faulty⟩
  · exact sound
  · exact nomatch noFault.symm.trans (fault?_eq_some_of_faulty faulty)

theorem faulty_of_fault?_eq_some {tree : Json} {fault : NodeFault}
    (found : fault? tree = some fault) : Faulty tree fault := by
  rcases sound_or_faulty tree with sound | ⟨other, faulty⟩
  · exact nomatch found.symm.trans (fault?_eq_none_of_sound sound)
  · cases found.symm.trans (fault?_eq_some_of_faulty faulty)
    exact faulty

/-! ## The fault of a whole reading -/

/-- The fault with which a reading failed. -/
def faultOf {α : Type} : Except NodeFault α → Option NodeFault
  | .ok _ => none
  | .error fault => some fault

theorem faultOf_map {α β : Type} (change : α → β) (reading : Except NodeFault α) :
    faultOf (change <$> reading) = faultOf reading := by
  cases reading <;> rfl

/-- Readings in a row fail with the first fault, if what comes second fails alike after every value
of the first. -/
theorem faultOf_bind {α β : Type} {first : Except NodeFault α} {next : α → Except NodeFault β}
    {later : Option NodeFault} (second : ∀ value, faultOf (next value) = later) :
    faultOf (first >>= next) = (faultOf first).or later := by
  cases first with
  | error fault => rfl
  | ok value => exact second value

theorem faultOf_textValue (members : List (String × Json)) (tag : String) :
    faultOf (Json.textValue members tag) =
      if ValueKind.text.admits (Json.member members "value") then none
      else some (.needsString tag) := by
  rw [Json.textValue]
  cases Json.member members "value" <;> rfl

/-- The trees are read with the first fault among all their positions. -/
def ReadsAlike (tree : Json) : Prop :=
  ∀ place : Label, faultOf (Node.ofJson place tree) = (positions tree).findSome? fault?

theorem faultOf_ofElements {trees : List Json} (alike : ∀ tree ∈ trees, ReadsAlike tree)
    (place : Label) (position : Nat) :
    faultOf (Node.ofElements place position trees) =
      (trees.flatMap positions).findSome? fault? := by
  induction trees generalizing position with
  | nil =>
      rw [Node.ofElements]
      rfl
  | cons tree rest inductionHypothesis =>
      have others := inductionHypothesis (fun other member =>
        alike other (List.mem_cons_of_mem tree member)) (position + 1)
      rw [Node.ofElements, List.flatMap_cons, List.findSome?_append, ← others,
        ← alike tree List.mem_cons_self (place.child position)]
      exact faultOf_bind fun node => faultOf_map _ _

theorem faultOf_ofEntries {entries : List (String × Json)}
    (alike : ∀ tree ∈ Table.values entries, ReadsAlike tree) (place : Label) (position : Nat) :
    faultOf (Node.ofEntries place position entries) =
      ((Table.values entries).flatMap positions).findSome? fault? := by
  induction entries generalizing position with
  | nil =>
      rw [Node.ofEntries]
      rfl
  | cons entry rest inductionHypothesis =>
      obtain ⟨key, tree⟩ := entry
      have others := inductionHypothesis (fun other member =>
        alike other (List.mem_cons_of_mem tree member)) (position + 1)
      rw [Node.ofEntries, Table.values, List.map_cons, List.flatMap_cons, List.findSome?_append,
        ← alike tree List.mem_cons_self (place.child position)]
      rw [Table.values] at others
      rw [← others]
      exact faultOf_bind fun node => faultOf_map _ _

/-- An operand that is missing or null has no position, and none that could be at fault. -/
theorem faultOf_ofOperand {operand : Json} (alike : operand.isNull = false → ReadsAlike operand)
    (place : Label) :
    faultOf (Node.ofOperand place operand) =
      (([operand].filter fun operand => !operand.isNull).flatMap positions).findSome? fault? := by
  cases operand with
  | null =>
      rw [Node.ofOperand]
      rfl
  | _ =>
      simp only [Node.ofOperand]
      rw [alike rfl place]
      exact congrArg (List.findSome? fault?) (List.append_nil _).symm

/-! ## From the children to the node -/

section Node

variable {tree : Json} (below : ∀ child ∈ children tree, ReadsAlike child) (place : Label)

theorem findSome?_positions (tree : Json) :
    (positions tree).findSome? fault? =
      (fault? tree).or (((children tree).flatMap positions).findSome? fault?) := by
  rw [positions_eq, List.findSome?_cons]
  cases fault? tree <;> rfl

theorem children_expression (tagged : tree.field "type" = .string "EXPRESSION") :
    children tree = tree.field "operator" ::
      ([tree.field "left"].filter (fun operand => !operand.isNull) ++
        [tree.field "right"].filter fun operand => !operand.isNull) := by
  rw [← List.filter_append]
  simp only [children, tagged, List.singleton_append]

theorem children_leaf {tag : String} (tagged : tree.field "type" = .string tag)
    (leaf : tag ∉ ["EXPRESSION", "STRUCT", "ACTION"]) : children tree = [] := by
  have apart {other : String} (inner : other ∈ ["EXPRESSION", "STRUCT", "ACTION"])
      (same : Json.string tag = .string other) : False :=
    leaf (Json.string.inj same ▸ inner)
  rw [children, tagged]
  split
  · rename_i same
    exact (apart (by decide) same).elim
  · rename_i same
    exact (apart (by decide) same).elim
  · rename_i same
    exact (apart (by decide) same).elim
  · rfl

include below

theorem faultOf_expression (tagged : tree.field "type" = .string "EXPRESSION") :
    (faultOf do
      let applied ← Node.ofJson (place.child 0) (tree.field "operator")
      let left ← Node.ofOperand (place.child 1) (tree.field "left")
      let right ← Node.ofOperand (place.child 2) (tree.field "right")
      return Node.expression applied left right) = (positions tree).findSome? fault? := by
  rw [children_expression tagged] at below
  have operand {key : String}
      (inChildren : tree.field key ∈ [tree.field "left", tree.field "right"])
      (present : (tree.field key).isNull = false) : ReadsAlike (tree.field key) := by
    refine below _ (List.mem_cons_of_mem _ ?_)
    rw [← List.filter_append]
    exact List.mem_filter.mpr ⟨inChildren, by rw [present]; rfl⟩
  have isLeft := faultOf_ofOperand (operand List.mem_cons_self) (place.child 1)
  have isRight := faultOf_ofOperand (operand (List.mem_cons_of_mem _ List.mem_cons_self))
    (place.child 2)
  rw [findSome?_positions, fault?_of_tag tagged (by decide), children_expression tagged,
    List.flatMap_cons, List.findSome?_append, List.flatMap_append, List.findSome?_append, ← isLeft,
    ← isRight, ← below _ List.mem_cons_self (place.child 0)]
  exact faultOf_bind fun applied => faultOf_bind fun left => faultOf_map _ _

theorem faultOf_struct (tagged : tree.field "type" = .string "STRUCT") :
    faultOf (Node.ofStruct place (tree.field "value")) = (positions tree).findSome? fault? := by
  rw [findSome?_positions, fault?_of_tag tagged (by decide)]
  simp only [children, tagged] at below ⊢
  cases isValue : tree.field "value" with
  | array elements =>
      rw [isValue] at below
      rw [Node.ofStruct, faultOf_map]
      exact faultOf_ofElements below place 0
  | object entries =>
      rw [isValue] at below
      rw [Node.ofStruct, faultOf_map]
      exact faultOf_ofEntries below place 0
  | _ =>
      simp only [Node.ofStruct]
      rfl

theorem faultOf_action (tagged : tree.field "type" = .string "ACTION") :
    faultOf (Node.ofAction place (tree.field "value")) = (positions tree).findSome? fault? := by
  rw [findSome?_positions, fault?_of_tag tagged (by decide)]
  simp only [children, tagged] at below ⊢
  cases isValue : tree.field "value" with
  | array body =>
      rw [isValue] at below
      rw [Node.ofAction, faultOf_map]
      exact faultOf_ofElements below place 0
  | _ =>
      simp only [Node.ofAction]
      rfl

end Node

/-- A leaf has only the fault of its own. -/
theorem findSome?_positions_leaf {tree : Json} {tag : String}
    (tagged : tree.field "type" = .string tag) (leaf : tag ∉ ["EXPRESSION", "STRUCT", "ACTION"]) :
    (positions tree).findSome? fault? = fault? tree := by
  rw [findSome?_positions, children_leaf tagged leaf]
  exact Option.or_none

theorem faultOf_text {tree : Json} {tag : String} (tagged : tree.field "type" = .string tag)
    (leaf : tag ∉ ["EXPRESSION", "STRUCT", "ACTION"]) (needed : needed? tag = some .text)
    {members : List (String × Json)} (isObject : tree = .object members) (wrap : String → Node) :
    faultOf (wrap <$> Json.textValue members tag) = (positions tree).findSome? fault? := by
  rw [findSome?_positions_leaf tagged leaf, fault?_of_tag tagged (mem_tags_of_needed needed),
    needed, faultOf_map, faultOf_textValue, isObject]
  rfl

/-- A tree is read as a node with the first fault among its positions, if there is one. -/
theorem readsAlike (tree : Json) : ReadsAlike tree := by
  intro place
  -- the recursion is on the tree: what holds of the children is all that a node needs
  have below : ∀ child ∈ children tree, ReadsAlike child := fun child member => readsAlike child
  cases tree with
  | object members =>
      have field (key : String) : (Json.object members).field key = Json.member members key := rfl
      by_cases hasTag : ∃ tag, Json.member members "type" = .string tag
      · obtain ⟨tag, isTag⟩ := hasTag
        have tagged : (Json.object members).field "type" = .string tag := isTag
        rw [Node.ofJson, isTag]
        dsimp only
        split
        · exact faultOf_expression below place tagged
        · exact faultOf_text tagged (by decide) rfl rfl _
        · exact faultOf_text tagged (by decide) rfl rfl _
        · exact faultOf_text tagged (by decide) rfl rfl _
        · exact faultOf_text tagged (by decide) rfl rfl _
        · rw [findSome?_positions_leaf tagged (by decide), fault?_of_tag tagged (by decide), field]
          cases Json.member members "value" <;> rfl
        · rw [findSome?_positions_leaf tagged (by decide), fault?_of_tag tagged (by decide), field]
          cases Json.member members "value" <;> rfl
        · rw [findSome?_positions_leaf tagged (by decide), fault?_of_tag tagged (by decide)]
          rfl
        · exact faultOf_struct below place tagged
        · exact faultOf_action below place tagged
        · have unknown : tag ∉ tags := by
            simp only [tags, List.mem_cons, List.not_mem_nil, or_false, not_or]
            refine ⟨?_, ?_, ?_, ?_, ?_, ?_, ?_, ?_, ?_, ?_⟩ <;> assumption
          rw [findSome?_positions, fault?_eq_some_of_faulty (.unknownTag tagged unknown)]
          rfl
      · have untagged : ∀ tag, (Json.object members).field "type" ≠ .string tag :=
          fun tag same => hasTag ⟨tag, same⟩
        rw [findSome?_positions, fault?_of_untagged untagged, Node.ofJson]
        cases isTag : Json.member members "type" with
        | string tag => exact absurd isTag (untagged tag)
        | _ => rfl
  | _ =>
      rw [findSome?_positions, fault?_of_untagged]
      · simp only [Node.ofJson]
        rfl
      · intro tag same
        cases same
termination_by sizeOf tree
decreasing_by exact sizeOf_lt_of_mem_children member

/-! ## Programs -/

theorem faultOf_program (stamp : Nat) (tree : Json) :
    faultOf (Program.ofJson stamp tree) = (programPositions tree).findSome? fault? := by
  cases tree with
  | array statements =>
      exact faultOf_ofElements (fun statement _ => readsAlike statement) ⟨stamp, []⟩ 0
  | _ =>
      simp only [Program.ofJson, programPositions]
      rw [faultOf_map]
      exact readsAlike _ ⟨stamp, []⟩

/-- Reading succeeds just if all positions are sound. -/
theorem faultOf_program_eq_none_iff {stamp : Nat} {tree : Json} :
    faultOf (Program.ofJson stamp tree) = none ↔ ∀ node ∈ programPositions tree, Sound node := by
  rw [faultOf_program, List.findSome?_eq_none_iff]
  constructor
  · exact fun noFault node member => sound_of_fault?_eq_none (noFault node member)
  · exact fun sound node member => fault?_eq_none_of_sound (sound node member)

theorem faultOf_program_eq_some_iff {stamp : Nat} {tree : Json} {fault : NodeFault} :
    faultOf (Program.ofJson stamp tree) = some fault ↔ FirstFault tree fault := by
  rw [faultOf_program, List.findSome?_eq_some_iff]
  constructor
  · rintro ⟨earlier, node, later, split, found, noFault⟩
    exact ⟨earlier, node, later, split,
      fun other member => sound_of_fault?_eq_none (noFault other member),
      faulty_of_fault?_eq_some found⟩
  · rintro ⟨earlier, node, later, split, sound, faulty⟩
    exact ⟨earlier, node, later, split, fault?_eq_some_of_faulty faulty,
      fun other member => fault?_eq_none_of_sound (sound other member)⟩

theorem decode_eq_ok_iff {stamp : Nat} {tree : Json} :
    (∃ program, Program.decode stamp tree = .ok program) ↔
      faultOf (Program.ofJson stamp tree) = none := by
  rw [Program.decode]
  cases Program.ofJson stamp tree with
  | ok program => exact iff_of_true ⟨program, rfl⟩ rfl
  | error fault => exact iff_of_false (fun ⟨_, impossible⟩ => nomatch impossible) nofun

theorem decode_eq_error_iff {stamp : Nat} {tree : Json} {cause : Collaborator} :
    Program.decode stamp tree = .error cause ↔
      ∃ fault, faultOf (Program.ofJson stamp tree) = some fault ∧
        cause = .parse fault.message := by
  rw [Program.decode]
  cases Program.ofJson stamp tree with
  | ok program => exact iff_of_false nofun (fun ⟨_, impossible, _⟩ => nomatch impossible)
  | error fault =>
      constructor
      · intro refused
        exact ⟨fault, rfl, (Except.error.inj refused).symm⟩
      · rintro ⟨found, isFound, rfl⟩
        cases isFound
        rfl

end Grammar

/-! ## Main result -/

/-- A tree is read as a program just if every node position in it is sound. Otherwise it is refused
as a whole, for no other cause than that it cannot be read; the text is that of the first position
that is not sound, and the failure has passed through no operator and is not rendered. -/
theorem program_is_read_or_first_fault_named (stamp : Nat) (tree : Json) :
    ((∃ program, Program.decode stamp tree = .ok program) ↔
      ∀ node ∈ Grammar.programPositions tree, Grammar.Sound node) ∧
    (∀ cause, Program.decode stamp tree = .error cause ↔
      ∃ fault, Grammar.FirstFault tree fault ∧ cause = .parse fault.message) ∧
    ∀ cause, Program.decode stamp tree = .error cause → ∀ state : State,
      (Run.ofCollaborator (Program.decode stamp tree)).from? state =
        some (.error { reason := some (.collaborator cause), locations := [], rendered := none },
          state) := by
  refine ⟨?_, fun cause => ?_, fun cause refused state => ?_⟩
  · rw [Grammar.decode_eq_ok_iff, Grammar.faultOf_program_eq_none_iff]
  · rw [Grammar.decode_eq_error_iff]
    simp only [Grammar.faultOf_program_eq_some_iff]
  · rw [refused]
    rfl

private def plus : Json := Node.tagged "OPERATOR" [("value", .string "+")]

/-- A number whose value is a text. -/
private def textAsNumber : Json := Node.tagged "NUMBER" [("value", .string "1")]

private def faultyEntries : Json :=
  Node.tagged "STRUCT" [("value", .object [("a", textAsNumber), ("b", .null)])]

/-- A sum whose left operand is null, with its members in another order than they are read. -/
private def faultySum : Json :=
  Node.tagged "EXPRESSION" [("right", faultyEntries), ("left", .null), ("operator", plus)]

theorem fault_of_entry_comes_first :
    Grammar.FirstFault (.array [faultySum, .null]) .needsNumber ∧
      Program.decode 0 (.array [faultySum, .null]) =
        .error (.parse "NUMBER node needs a numeric value") ∧
      (Run.ofCollaborator (Program.decode 0 (.array [faultySum, .null]))).from? {} =
        some (.error (Error.ofReason
          (.collaborator (.parse "NUMBER node needs a numeric value"))), {}) ∧
      ∃ program, Program.decode 0 plus = .ok program := by
  have ofSum : Grammar.children faultySum = [plus, faultyEntries] := rfl
  have ofEntries : Grammar.children faultyEntries = [textAsNumber, .null] := rfl
  have ofPlus : Grammar.children plus = [] := rfl
  have ofNumber : Grammar.children textAsNumber = [] := rfl
  have ofNull : Grammar.children .null = [] := rfl
  have soundPlus : Grammar.Sound plus :=
    ⟨"OPERATOR", by decide, rfl, fun kind needed => Option.some.inj needed ▸ rfl⟩
  have firstFault : Grammar.FirstFault (.array [faultySum, .null]) .needsNumber := by
    have faulty : Grammar.Faulty textAsNumber (Grammar.ValueKind.number.fault "NUMBER") :=
      .unfitValue rfl rfl rfl
    refine ⟨[faultySum, plus, faultyEntries], textAsNumber, [.null, .null], ?_, ?_, faulty⟩
    · simp [Grammar.programPositions, Grammar.positions_eq, ofSum, ofEntries, ofPlus, ofNumber,
        ofNull]
    · intro other member
      simp only [List.mem_cons, List.not_mem_nil, or_false] at member
      rcases member with rfl | rfl | rfl
      · refine ⟨"EXPRESSION", by decide, rfl, fun kind needed => ?_⟩
        cases needed
      · exact soundPlus
      · exact ⟨"STRUCT", by decide, rfl, fun kind needed => Option.some.inj needed ▸ rfl⟩
  obtain ⟨_, refuses, fails⟩ := program_is_read_or_first_fault_named 0 (.array [faultySum, .null])
  have refused := (refuses _).mpr ⟨_, firstFault, rfl⟩
  refine ⟨firstFault, refused, fails _ refused {}, ?_⟩
  rw [(program_is_read_or_first_fault_named 0 plus).1]
  intro node member
  have onlyPlus : Grammar.programPositions plus = [plus] := by
    change Grammar.positions plus = [plus]
    rw [Grammar.positions_eq, ofPlus]
    rfl
  rw [onlyPlus, List.mem_singleton] at member
  exact member ▸ soundPlus

end Tabula
