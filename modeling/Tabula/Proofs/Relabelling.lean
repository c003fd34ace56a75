import Tabula.Loader

/-!
# Labels of actions

A label tells an action apart from others and means nothing else. Programs that differ in their
labels only are relabellings of one another. A text that is read again gives the same program with
another stamp in its labels.

Loaders may answer a path with a program that was read once, or read a text anew each time. In both
cases the answer is steady: it depends on the stamp in the labels only.
-/

namespace Tabula

namespace Node

/-! ## Relabelling -/

mutual

/-- Changes every label in a node. -/
def relabelled (change : Label → Label) : Node → Node
  | expression applied left right =>
      expression (applied.relabelled change) (left.relabelled change) (right.relabelled change)
  | operator symbol => operator symbol
  | atom name => atom name
  | accessor name => accessor name
  | constant value => constant value
  | action label body => action (change label) (relabelledAll change body)
  | template entries => template (relabelledEntries change entries)

def relabelledAll (change : Label → Label) : List Node → List Node
  | [] => []
  | node :: rest => node.relabelled change :: relabelledAll change rest

def relabelledEntries (change : Label → Label) : List (String × Node) → List (String × Node)
  | [] => []
  | (key, entry) :: rest => (key, entry.relabelled change) :: relabelledEntries change rest

end

mutual

/-- The labels in a node. -/
def labels : Node → List Label
  | expression applied left right => applied.labels ++ left.labels ++ right.labels
  | action label body => label :: labelsOfAll body
  | template entries => labelsOfEntries entries
  | _ => []

def labelsOfAll : List Node → List Label
  | [] => []
  | node :: rest => node.labels ++ labelsOfAll rest

def labelsOfEntries : List (String × Node) → List Label
  | [] => []
  | (_, entry) :: rest => entry.labels ++ labelsOfEntries rest

end

theorem relabelledAll_eq_map (change : Label → Label) (nodes : List Node) :
    relabelledAll change nodes = nodes.map (relabelled change) := by
  induction nodes with
  | nil => rfl
  | cons node rest inductionHypothesis => rw [relabelledAll, inductionHypothesis, List.map_cons]

theorem relabelledEntries_eq_map (change : Label → Label) (entries : List (String × Node)) :
    relabelledEntries change entries =
      entries.map fun entry => (entry.1, entry.2.relabelled change) := by
  induction entries with
  | nil => rfl
  | cons entry rest inductionHypothesis =>
      rw [relabelledEntries, inductionHypothesis, List.map_cons]

@[simp]
theorem kind_relabelled (change : Label → Label) (node : Node) :
    (node.relabelled change).kind = node.kind := by
  cases node <;> simp [relabelled, kind]

@[simp]
theorem name?_relabelled (change : Label → Label) (node : Node) :
    (node.relabelled change).name? = node.name? := by
  cases node <;> simp [relabelled, name?]

mutual

theorem relabelled_eq_self {change : Label → Label} (node : Node)
    (fixed : ∀ label ∈ node.labels, change label = label) : node.relabelled change = node := by
  cases node with
  | expression applied left right =>
      simp only [labels, List.mem_append, or_imp, forall_and] at fixed
      simp only [relabelled, relabelled_eq_self applied fixed.1.1,
        relabelled_eq_self left fixed.1.2, relabelled_eq_self right fixed.2]
  | action label body =>
      simp only [labels, List.forall_mem_cons] at fixed
      simp only [relabelled, fixed.1, relabelledAll_eq_self body fixed.2]
  | template entries =>
      simp only [labels] at fixed
      simp only [relabelled, relabelledEntries_eq_self entries fixed]
  | _ => simp only [relabelled]

theorem relabelledAll_eq_self {change : Label → Label} (nodes : List Node)
    (fixed : ∀ label ∈ labelsOfAll nodes, change label = label) :
    relabelledAll change nodes = nodes := by
  cases nodes with
  | nil => rfl
  | cons node rest =>
      simp only [labelsOfAll, List.mem_append, or_imp, forall_and] at fixed
      simp only [relabelledAll, relabelled_eq_self node fixed.1,
        relabelledAll_eq_self rest fixed.2]

theorem relabelledEntries_eq_self {change : Label → Label} (entries : List (String × Node))
    (fixed : ∀ label ∈ labelsOfEntries entries, change label = label) :
    relabelledEntries change entries = entries := by
  cases entries with
  | nil => rfl
  | cons entry rest =>
      simp only [labelsOfEntries, List.mem_append, or_imp, forall_and] at fixed
      simp only [relabelledEntries, relabelled_eq_self entry.2 fixed.1,
        relabelledEntries_eq_self rest fixed.2]

end

theorem relabelled_id : relabelled id = id :=
  funext fun node => relabelled_eq_self node fun _ _ => rfl

/-! ## Reading again -/

theorem relabelled_list (change : Label → Label) (elements : List Node) :
    (list elements).relabelled change = list (elements.map (relabelled change)) := by
  simp only [list, relabelled, relabelledEntries_eq_map, List.zipIdx_map, List.map_map]
  rfl

theorem relabelledEntries_insert (change : Label → Label) (entries : Table Node) (key : String)
    (node : Node) :
    relabelledEntries change (entries.insert key node) =
      Table.insert (relabelledEntries change entries) key (node.relabelled change) := by
  induction entries with
  | nil => rfl
  | cons entry rest inductionHypothesis =>
      obtain ⟨name, first⟩ := entry
      rw [Table.insert, relabelledEntries, Table.insert]
      by_cases here : name = key
      · rw [if_pos here, if_pos here, relabelledEntries]
      · rw [if_neg here, if_neg here, relabelledEntries, inductionHypothesis]

theorem relabelledEntries_overlay (change : Label → Label) (entries : Table Node)
    (added : List (String × Node)) :
    relabelledEntries change (entries.overlay added) =
      Table.overlay (relabelledEntries change entries) (relabelledEntries change added) := by
  induction added generalizing entries with
  | nil => rfl
  | cons entry rest inductionHypothesis =>
      have step := inductionHypothesis (entries.insert entry.1 entry.2)
      rwa [relabelledEntries_insert] at step

section Reading

/-- The change of labels puts one stamp in the place of another. -/
def Restamps (change : Label → Label) (stamp other : Nat) : Prop :=
  ∀ path, change ⟨stamp, path⟩ = ⟨other, path⟩

variable {change : Label → Label} {stamp other : Nat}

mutual

/-- What is read with another stamp is the same, but for the stamp in its labels. -/
theorem ofJson_restamped (restamps : Restamps change stamp other) (path : List Nat) (json : Json) :
    ofJson ⟨other, path⟩ json = (ofJson ⟨stamp, path⟩ json).map (relabelled change) := by
  cases json with
  | object members =>
      rw [ofJson, ofJson]
      cases Json.member members "type" with
      | string tag =>
          dsimp only
          split
          · have applied := ofJson_restamped restamps (0 :: path) (Json.member members "operator")
            have left := ofOperand_restamped restamps (1 :: path) (Json.member members "left")
            have right := ofOperand_restamped restamps (2 :: path) (Json.member members "right")
            simp only [Label.child, applied, left, right]
            cases ofJson ⟨stamp, 0 :: path⟩ (Json.member members "operator") with
            | error fault => rfl
            | ok operator =>
                cases ofOperand ⟨stamp, 1 :: path⟩ (Json.member members "left") with
                | error fault => rfl
                | ok left =>
                    cases ofOperand ⟨stamp, 2 :: path⟩ (Json.member members "right") <;> rfl
          · cases Json.textValue members "OPERATOR" <;> rfl
          · cases Json.textValue members "ATOM" <;> rfl
          · cases Json.textValue members "ACCESSOR" <;> rfl
          · cases Json.textValue members "STRING" <;> rfl
          · cases Json.member members "value" <;> rfl
          · cases Json.member members "value" <;> rfl
          · rfl
          · exact ofStruct_restamped restamps path (Json.member members "value")
          · exact ofAction_restamped restamps path (Json.member members "value")
          · rfl
      | _ => rfl
  | _ => simp only [ofJson, Except.map]
termination_by (sizeOf json, 0)
decreasing_by
  · exact Prod.Lex.left _ _ (Json.sizeOf_member_lt members "operator")
  · exact Prod.Lex.left _ _ (Json.sizeOf_member_lt members "left")
  · exact Prod.Lex.left _ _ (Json.sizeOf_member_lt members "right")
  · exact Prod.Lex.left _ _ (Json.sizeOf_member_lt members "value")
  · exact Prod.Lex.left _ _ (Json.sizeOf_member_lt members "value")

theorem ofOperand_restamped (restamps : Restamps change stamp other) (path : List Nat)
    (json : Json) :
    ofOperand ⟨other, path⟩ json = (ofOperand ⟨stamp, path⟩ json).map (relabelled change) := by
  cases json with
  | null => simp only [ofOperand, Except.map, void, relabelled]
  | _ =>
      simp only [ofOperand]
      exact ofJson_restamped restamps path _
termination_by (sizeOf json, 1)

theorem ofStruct_restamped (restamps : Restamps change stamp other) (path : List Nat)
    (json : Json) :
    ofStruct ⟨other, path⟩ json = (ofStruct ⟨stamp, path⟩ json).map (relabelled change) := by
  cases json with
  | array elements =>
      rw [ofStruct, ofStruct, ofElements_restamped restamps path 0 elements]
      cases ofElements ⟨stamp, path⟩ 0 elements with
      | error fault => rfl
      | ok nodes =>
          have same : list (relabelledAll change nodes) = (list nodes).relabelled change := by
            rw [relabelled_list, relabelledAll_eq_map]
          exact congrArg Except.ok same
  | object entries =>
      rw [ofStruct, ofStruct, ofEntries_restamped restamps path 0 entries]
      cases ofEntries ⟨stamp, path⟩ 0 entries with
      | error fault => rfl
      | ok nodes =>
          have same := relabelledEntries_overlay change [] nodes
          exact congrArg (Except.ok ∘ template) same.symm
  | _ => simp only [ofStruct, Except.map]
termination_by (sizeOf json, 0)

theorem ofAction_restamped (restamps : Restamps change stamp other) (path : List Nat)
    (json : Json) :
    ofAction ⟨other, path⟩ json = (ofAction ⟨stamp, path⟩ json).map (relabelled change) := by
  cases json with
  | array body =>
      rw [ofAction, ofAction, ofElements_restamped restamps path 0 body]
      cases ofElements ⟨stamp, path⟩ 0 body with
      | error fault => rfl
      | ok nodes =>
          have same : action ⟨other, path⟩ (relabelledAll change nodes) =
              (action ⟨stamp, path⟩ nodes).relabelled change := by
            rw [relabelled, restamps path]
          exact congrArg Except.ok same
  | _ => simp only [ofAction, Except.map]
termination_by (sizeOf json, 0)

theorem ofElements_restamped (restamps : Restamps change stamp other) (path : List Nat)
    (position : Nat) (elements : List Json) :
    ofElements ⟨other, path⟩ position elements =
      (ofElements ⟨stamp, path⟩ position elements).map (relabelledAll change) := by
  cases elements with
  | nil => simp only [ofElements, Except.map, relabelledAll]
  | cons element rest =>
      have first := ofJson_restamped restamps (position :: path) element
      have others := ofElements_restamped restamps path (position + 1) rest
      simp only [ofElements, Label.child, first, others]
      cases ofJson ⟨stamp, position :: path⟩ element with
      | error fault => rfl
      | ok node => cases ofElements ⟨stamp, path⟩ (position + 1) rest <;> rfl
termination_by (sizeOf elements, 0)

theorem ofEntries_restamped (restamps : Restamps change stamp other) (path : List Nat)
    (position : Nat) (entries : List (String × Json)) :
    ofEntries ⟨other, path⟩ position entries =
      (ofEntries ⟨stamp, path⟩ position entries).map (relabelledEntries change) := by
  cases entries with
  | nil => simp only [ofEntries, Except.map, relabelledEntries]
  | cons entry rest =>
      obtain ⟨key, node⟩ := entry
      have first := ofJson_restamped restamps (position :: path) node
      have others := ofEntries_restamped restamps path (position + 1) rest
      simp only [ofEntries, Label.child, first, others]
      cases ofJson ⟨stamp, position :: path⟩ node with
      | error fault => rfl
      | ok read => cases ofEntries ⟨stamp, path⟩ (position + 1) rest <;> rfl
termination_by (sizeOf entries, 0)

end

end Reading

end Node

theorem Program.parse_restamped {change : Label → Label} {stamp other : Nat}
    (restamps : Node.Restamps change stamp other) (source : String) :
    Program.parse other source =
      (Program.parse stamp source).map (List.map (Node.relabelled change)) := by
  have read : ∀ json, Program.ofJson other json =
      (Program.ofJson stamp json).map (List.map (Node.relabelled change)) := by
    intro json
    cases json with
    | array nodes =>
        have same : Node.relabelledAll change = List.map (Node.relabelled change) :=
          funext (Node.relabelledAll_eq_map change)
        rw [Program.ofJson, Program.ofJson, Node.ofElements_restamped restamps [] 0 nodes, same]
    | _ =>
        simp only [Program.ofJson]
        rw [Node.ofJson_restamped restamps [] _]
        cases Node.ofJson ⟨stamp, []⟩ _ <;> rfl
  rw [Program.parse, Program.parse]
  cases Json.parse source with
  | error cause => rfl
  | ok json =>
      change Program.decode other json = (Program.decode stamp json).map _
      rw [Program.decode, Program.decode, read json]
      cases Program.ofJson stamp json <;> rfl

/-! ## Loaders -/

/-- Asked from a later number on, the loader answers as it did from an earlier one on, but for the
labels; and different labels stay different. -/
def Loader.SteadyFrom (loader : Loader) (since : Nat) : Prop :=
  ∀ ⦃first second : Nat⦄, since ≤ first → first ≤ second →
    ∃ relabel : Label → Label, Function.Injective relabel ∧
      ∀ offset path, loader (second + offset) path =
        (loader (first + offset) path).map (List.map (Node.relabelled relabel))

theorem Loader.steadyFrom_of_fixed {loader : Loader}
    (fixed : ∀ stamp other path, loader stamp path = loader other path) (since : Nat) :
    loader.SteadyFrom since := by
  intro first second _ _
  refine ⟨id, Function.injective_id, ?_⟩
  intro offset path
  rw [Node.relabelled_id, List.map_id_fun, Except.map_id]
  exact fixed (second + offset) (first + offset) path

/-- The label with a later stamp, if its stamp is not from before. -/
def Label.later (since distance : Nat) (label : Label) : Label :=
  if label.stamp < since then label else ⟨label.stamp + distance, label.path⟩

theorem Label.injective_later (since distance : Nat) :
    Function.Injective (Label.later since distance) := by
  rintro ⟨stamp, path⟩ ⟨other, path'⟩ same
  simp only [Label.later] at same
  split at same <;> split at same <;> rw [Label.mk.injEq] at same ⊢ <;>
    exact ⟨by omega, same.2⟩

/-- Asked from a later number on, the loader answers as it did from an earlier one on, but for the
stamps that it was given: older labels are the same. -/
def Loader.StampsFrom (loader : Loader) (since : Nat) : Prop :=
  ∀ ⦃first second : Nat⦄, since ≤ first → first ≤ second → ∀ offset path,
    loader (second + offset) path =
      (loader (first + offset) path).map
        (List.map (Node.relabelled (Label.later first (second - first))))

namespace Loader

variable {since : Nat}

theorem StampsFrom.steadyFrom {loader : Loader} (stamps : loader.StampsFrom since) :
    loader.SteadyFrom since := by
  intro first second old le
  exact ⟨Label.later first (second - first), Label.injective_later _ _, stamps old le⟩

theorem stampsFrom_files (read : String → Except String String) :
    (files read Program.parse).StampsFrom since := by
  intro first second _ le offset path
  have restamps :
      Node.Restamps (Label.later first (second - first)) (first + offset) (second + offset) := by
    intro place
    -- every label of a program that is read now is stamped with the number that was asked with
    have notBefore : ¬ first + offset < first := Nat.not_lt.mpr (Nat.le_add_right first offset)
    have isLater : first + offset + (second - first) = second + offset := by omega
    simp only [Label.later, if_neg notBefore, isLater]
  simp only [files]
  cases read path with
  | error cause => rfl
  | ok text => exact Program.parse_restamped restamps text

/-- Programs in memory keep their labels, which they had before. -/
theorem stampsFrom_memory {programs : Table Program}
    (older : ∀ program ∈ programs.values, ∀ label ∈ Node.labelsOfAll program,
      label.stamp < since) : (memory programs).StampsFrom since := by
  intro first second old _ offset path
  rw [memory, memory]
  cases found : programs.get? path with
  | none => rfl
  | some program =>
      have fixed : ∀ label ∈ Node.labelsOfAll program,
          Label.later first (second - first) label = label := by
        intro label member
        have before : label.stamp < first :=
          Nat.lt_of_lt_of_le (older program (Table.mem_values_of_get? found) label member) old
        rw [Label.later, if_pos before]
      have same := Node.relabelledAll_eq_self program fixed
      rw [Node.relabelledAll_eq_map] at same
      exact congrArg Except.ok same.symm

theorem stampsFrom_first {loaders : List Loader}
    (stamps : ∀ loader ∈ loaders, loader.StampsFrom since) : (first loaders).StampsFrom since := by
  intro earlier later old le offset path
  -- a loader that refuses at one stamp refuses at the other, so the same one answers both times
  have found :
      (loaders.findSome? fun loader => (loader (later + offset) path).toOption) =
        (loaders.findSome? fun loader => (loader (earlier + offset) path).toOption).map
          (List.map (Node.relabelled (Label.later earlier (later - earlier)))) := by
    induction loaders with
    | nil => rfl
    | cons loader rest inductionHypothesis =>
        rw [List.findSome?_cons, List.findSome?_cons,
          stamps loader List.mem_cons_self old le offset path,
          inductionHypothesis fun other member => stamps other (List.mem_cons_of_mem _ member)]
        cases loader (earlier + offset) path <;> rfl
  rw [first, first, found]
  cases loaders.findSome? fun loader => (loader (earlier + offset) path).toOption <;> rfl

end Loader

end Tabula
