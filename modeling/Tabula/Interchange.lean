import Tabula.Error
import Tabula.Json.Reader

/-!
Programs in the data format. Every node is an object with a `type` tag; what else it needs depends
on the tag. A program is an array of nodes or a single node. Reading stops at the first faulty node,
a node before its children, and `toJson` writes what is read back as the same node.
-/

namespace Tabula

/-- What is wrong with the tree of a node. -/
inductive NodeFault where
  | untagged
  | needsString (tag : String)
  | needsNumber
  | needsBool
  | needsEntries
  | needsStatements
  | unknownTag (tag : String)
deriving DecidableEq, Repr

/-- The text of a fault. -/
def NodeFault.message : NodeFault → String
  | untagged => "node without a type tag"
  | needsString tag => String.join [tag, " node needs a string value"]
  | needsNumber => "NUMBER node needs a numeric value"
  | needsBool => "BOOL node needs a boolean value"
  | needsEntries => "STRUCT node needs an object or array value"
  | needsStatements => "ACTION node needs an array value"
  | unknownTag tag => String.join ["unknown node type '", tag, "'"]

namespace Json

/-- The string value that a node with this tag needs. -/
def textValue (members : List (String × Json)) (tag : String) : Except NodeFault String :=
  match member members "value" with
  | string text => .ok text
  | _ => .error (.needsString tag)

theorem sizeOf_get?_lt {members : Table Json} {key : String} {value : Json}
    (found : members.get? key = some value) : sizeOf value < sizeOf members := by
  induction members with
  | nil => simp [Table.get?] at found
  | cons entry rest inductionHypothesis =>
      obtain ⟨name, first⟩ := entry
      simp only [Table.get?] at found
      split at found
      · simp only [Option.some.injEq] at found
        subst found
        simp
        omega
      · have smaller := inductionHypothesis found
        simp
        omega

/-- A member is smaller than its object, and so is the null that stands for a missing one. -/
theorem sizeOf_member_lt (members : List (String × Json)) (key : String) :
    sizeOf (member members key) < sizeOf (object members) := by
  simp only [member, object.sizeOf_spec]
  cases found : Table.get? members key with
  | none =>
      have positive : 0 < sizeOf members := by
        cases members with
        | nil => simp only [List.nil.sizeOf_spec, Nat.lt_add_one]
        | cons entry rest =>
            simp only [List.cons.sizeOf_spec]
            omega
      simp only [Option.getD_none, null.sizeOf_spec]
      omega
  | some value =>
      have smaller := sizeOf_get?_lt found
      simp only [Option.getD_some]
      omega

end Json

namespace Node

mutual

/-- Reads a node from its tree. Action literals are labelled by their place. -/
def ofJson (place : Label) (json : Json) : Except NodeFault Node :=
  match json with
  | .object members =>
      match Json.member members "type" with
      | .string tag =>
          match tag with
          | "EXPRESSION" => do
              let applied ← ofJson (place.child 0) (Json.member members "operator")
              let left ← ofOperand (place.child 1) (Json.member members "left")
              let right ← ofOperand (place.child 2) (Json.member members "right")
              return expression applied left right
          | "OPERATOR" => operator <$> Json.textValue members tag
          | "ATOM" => atom <$> Json.textValue members tag
          | "ACCESSOR" => accessor <$> Json.textValue members tag
          | "STRING" => (constant ∘ .string) <$> Json.textValue members tag
          | "NUMBER" =>
              match Json.member members "value" with
              | .number value => .ok (constant (.number value.toFloat))
              | _ => .error .needsNumber
          | "BOOL" =>
              match Json.member members "value" with
              | .bool truth => .ok (constant (.bool truth))
              | _ => .error .needsBool
          | "VOID" => .ok void
          | "STRUCT" => ofStruct place (Json.member members "value")
          | "ACTION" => ofAction place (Json.member members "value")
          | other => .error (.unknownTag other)
      | _ => .error .untagged
  | _ => .error .untagged
termination_by (sizeOf json, 0)
decreasing_by
  · exact Prod.Lex.left _ _ (Json.sizeOf_member_lt members "operator")
  · exact Prod.Lex.left _ _ (Json.sizeOf_member_lt members "left")
  · exact Prod.Lex.left _ _ (Json.sizeOf_member_lt members "right")
  · exact Prod.Lex.left _ _ (Json.sizeOf_member_lt members "value")
  · exact Prod.Lex.left _ _ (Json.sizeOf_member_lt members "value")

/-- Reads an operand; a missing one is void. -/
def ofOperand (place : Label) (json : Json) : Except NodeFault Node :=
  match json with
  | .null => .ok void
  | other => ofJson place other
termination_by (sizeOf json, 1)

/-- Reads the entries of a struct: an object gives them keys, and an array their positions. -/
def ofStruct (place : Label) (json : Json) : Except NodeFault Node :=
  match json with
  | .array elements => list <$> ofElements place 0 elements
  | .object entries => (template ∘ Table.ofList) <$> ofEntries place 0 entries
  | _ => .error .needsEntries
termination_by (sizeOf json, 0)

/-- Reads the statements of an action. -/
def ofAction (place : Label) (json : Json) : Except NodeFault Node :=
  match json with
  | .array body => action place <$> ofElements place 0 body
  | _ => .error .needsStatements
termination_by (sizeOf json, 0)

/-- Reads nodes in order, the first of them at the given position. -/
def ofElements (place : Label) (position : Nat) : List Json → Except NodeFault (List Node)
  | [] => .ok []
  | element :: rest => do
      let node ← ofJson (place.child position) element
      let nodes ← ofElements place (position + 1) rest
      return node :: nodes
termination_by elements => (sizeOf elements, 0)

/-- Reads the entries of a struct in order. -/
def ofEntries (place : Label) (position : Nat) :
    List (String × Json) → Except NodeFault (List (String × Node))
  | [] => .ok []
  | (key, entry) :: rest => do
      let node ← ofJson (place.child position) entry
      let nodes ← ofEntries place (position + 1) rest
      return (key, node) :: nodes
termination_by entries => (sizeOf entries, 0)

end

/-! ## Writing -/

/-- The object of a node with a tag. -/
def tagged (tag : String) (members : List (String × Json)) : Json :=
  .object (("type", .string tag) :: members)

mutual

/-- The tree of a node. -/
def toJson : Node → Json
  | expression applied left right =>
      tagged "EXPRESSION"
        [("operator", applied.toJson), ("left", left.toJson), ("right", right.toJson)]
  | operator symbol => tagged "OPERATOR" [("value", .string symbol)]
  | atom name => tagged "ATOM" [("value", .string name)]
  | accessor name => tagged "ACCESSOR" [("value", .string name)]
  | constant (.number value) => tagged "NUMBER" [("value", .number (.ofFloat value))]
  | constant (.string text) => tagged "STRING" [("value", .string text)]
  | constant (.bool truth) => tagged "BOOL" [("value", .bool truth)]
  | constant .void => tagged "VOID" []
  | action _ body => tagged "ACTION" [("value", .array (elementsToJson body))]
  | template entries => tagged "STRUCT" [("value", .object (entriesToJson entries))]

/-- The trees of statements or elements. -/
def elementsToJson : List Node → List Json
  | [] => []
  | element :: rest => element.toJson :: elementsToJson rest

/-- The members of the object of a template. -/
def entriesToJson : List (String × Node) → List (String × Json)
  | [] => []
  | (key, entry) :: rest => (key, entry.toJson) :: entriesToJson rest

end

end Node

/-! ## Programs -/

namespace Program

/-- Reads a program from a tree; the stamp marks the labels of its actions. -/
def ofJson (stamp : Nat) (json : Json) : Except NodeFault Program :=
  match json with
  | .array nodes => Node.ofElements ⟨stamp, []⟩ 0 nodes
  | node => (fun statement => [statement]) <$> Node.ofJson ⟨stamp, []⟩ node

/-- The tree of a program. -/
def toJson (program : Program) : Json := .array (Node.elementsToJson program)

/-- Reads a program from a tree, with the fault as a cause of failure. -/
def decode (stamp : Nat) (json : Json) : Except Collaborator Program :=
  (ofJson stamp json).mapError fun fault => .parse fault.message

/-- Reads a program from its text. -/
def parse (stamp : Nat) (source : String) : Except Collaborator Program := do
  let json ← (Json.parse source).mapError Collaborator.parse
  decode stamp json

end Program

end Tabula
