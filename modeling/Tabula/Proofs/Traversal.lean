import Mathlib
import Tabula.Proofs.Assignment
import Tabula.Proofs.Bounds
import Tabula.Proofs.Equality
import Tabula.Proofs.KeyOrder

/-!
# Traversals that cut cycles

A value is shown as text and as data by one and the same traversal. It keeps the cells of the
structs that it is inside of on a stack, cuts a struct whose cell lies there, and takes a cell off
again when its struct is done. So a struct is cut at an occurrence exactly if its cell occurs on the
way down to it: what is shared without a cycle is shown in full at each of its places, and where
there is no cycle the stack makes no difference to a plain recursion.
-/

namespace Tabula

open Relation

/-! ## Traversals -/

/-- How a traversal shows what it meets: a value that is no struct, a struct that is cut, and a
struct whose entries have been shown. -/
structure View (β : Type) where
  leaf : Value → β
  cut : β
  struct : Table β → β

namespace View

/-- Structs are written between braces, each key raw in front of its value. -/
def text : View String where
  leaf := Value.leafText
  cut := "\x7b...\x7d"
  struct shown :=
    String.join
      ["\x7b", ", ".intercalate (shown.map fun entry => String.join [entry.1, ": ", entry.2]),
        "\x7d"]

/-- Structs are objects, which get one member after another. -/
def data : View Json where
  leaf := Value.leafJson
  cut := .null
  struct shown := .object (Table.ofList shown)

variable {β : Type}

/-- Shows each value of a table under its key, in order. -/
def showEntries {m : Type → Type} [Monad m] (inner : Value → m β) (entries : Table Value) :
    m (Table β) :=
  entries.mapM fun entry => do
    let shown ← inner entry.2
    return (entry.1, shown)

/-- Shows a value through so many nested structs. The cells of the structs that are being shown are
the state. -/
def traverse (view : View β) (heap : Heap) : Nat → Value → StateT (List Cell) Option β
  | 0, _ => failure
  | depth + 1, .struct cell => do
      let stack ← get
      if cell ∈ stack then return view.cut
      set (cell :: stack)
      let shown ← showEntries (view.traverse heap depth) (heap.read cell)
      modify List.tail
      return view.struct shown
  | _ + 1, value => return view.leaf value

/-- Shows a value through so many nested structs and cuts nothing. -/
def plain (view : View β) (heap : Heap) : Nat → Value → Option β
  | 0, _ => none
  | depth + 1, .struct cell => do
      let shown ← showEntries (view.plain heap depth) (heap.read cell)
      return view.struct shown
  | _ + 1, value => return view.leaf value

/-- A reading of unfolded values shows each part of them as the view does. -/
structure Projects (view : View β) (project : Unfolding → β) : Prop where
  leaf : ∀ value, project (.leaf value) = view.leaf value
  cut : project .cut = view.cut
  struct : ∀ entries : Table Unfolding, entries.Distinct →
    project (.struct entries) =
      view.struct (entries.map fun entry => (entry.1, project entry.2))

end View

/-! ## Occurrences -/

namespace Heap

/-- What a path of keys below a value leads to, after the cells of the structs that it passes. -/
def locate (heap : Heap) : Value → List String → Option (List Cell × Value)
  | value, [] => some ([], value)
  | .struct cell, key :: rest => do
      let next ← heap.get? cell key
      let (passed, target) ← heap.locate next rest
      return (cell :: passed, target)
  | _, _ :: _ => none

/-- The path leads to an occurrence of a value, and passes no struct twice. -/
def Occurs (heap : Heap) (root : Value) (path : List String) (passed : List Cell)
    (target : Value) : Prop :=
  heap.locate root path = some (passed, target) ∧ passed.Nodup

end Heap

/-- What stands at the end of a path of keys in an unfolded value. -/
def Unfolding.at? : Unfolding → List String → Option Unfolding
  | tree, [] => some tree
  | .struct entries, key :: rest => do
      let entry ← Table.get? entries key
      entry.at? rest
  | _, _ :: _ => none

namespace Heap

/-- A tree that cuts each struct that it meets inside itself, and nothing else, and that shows all
else as it stands in the heap. -/
structure CutsCycles (heap : Heap) (value : Value) (tree : Unfolding) : Prop where
  leaf : ∀ path leaf, tree.at? path = some (.leaf leaf) ↔
    leaf.cell? = none ∧ ∃ passed, heap.Occurs value path passed leaf
  cut : ∀ path, tree.at? path = some .cut ↔
    ∃ passed cell, heap.Occurs value path passed (.struct cell) ∧ cell ∈ passed
  struct : ∀ path keys,
    (∃ entries : Table Unfolding, tree.at? path = some (.struct entries) ∧
        entries.keys = keys) ↔
      ∃ passed cell, heap.Occurs value path passed (.struct cell) ∧ cell ∉ passed ∧
        keys = (heap.read cell).keys
  full : ∀ path passed target, heap.Occurs value path passed target →
    ¬ heap.ReachesCycle target → tree.at? path = some (heap.unfold target)

/-- Different allocated cells, such as lie on the stack of a traversal. -/
def Way (heap : Heap) (above : List Cell) : Prop :=
  above.Nodup ∧ ∀ cell ∈ above, cell < heap.size

/-- A value reaches none of the cells through fields. -/
def Avoids (heap : Heap) (value : Value) (above : List Cell) : Prop :=
  ∀ start, value = .struct start → ∀ cell ∈ above, ¬ ReflTransGen heap.Child start cell

/-- A value unfolded below structs whose cells are given, as deeply as it goes. -/
def unfoldUnder (heap : Heap) (above : List Cell) (value : Value) : Unfolding :=
  heap.unfoldBelow (heap.size + 2) above value

end Heap

/-- Names that start with neither two underscores nor a dollar sign. -/
def Visible (name : String) : Prop :=
  ¬ ['_', '_'] <+: name.toList ∧ ¬ ['$'] <+: name.toList

instance (name : String) : Decidable (Visible name) :=
  inferInstanceAs (Decidable (_ ∧ _))

/-- The visible bindings of a scope in order, each one as if its value were shown alone. -/
def Heap.shownBindings (heap : Heap) (scope : Cell) : Table Json :=
  ((heap.read scope).filter fun binding => decide (Visible binding.1)).map fun binding =>
    (binding.1, heap.toJson binding.2)

namespace Table

theorem keys_mapValues {α β : Type} (table : Table α) (change : α → β) :
    keys (table.map fun entry => (entry.1, change entry.2)) = table.keys := by
  rw [keys, List.map_map]
  rfl

theorem mapValues_congr {α β : Type} {table : Table α} {change change' : α → β}
    (same : ∀ value ∈ table.values, change value = change' value) :
    table.map (fun entry => (entry.1, change entry.2)) =
      table.map fun entry => (entry.1, change' entry.2) :=
  List.map_congr_left fun entry member =>
    congrArg (Prod.mk entry.1) (same entry.2 (List.mem_map_of_mem member))

theorem get?_mapValues {α β : Type} (table : Table α) (change : α → β) (key : String) :
    get? (table.map fun entry => (entry.1, change entry.2)) key = (table.get? key).map change := by
  induction table with
  | nil => rfl
  | cons entry rest inductionHypothesis =>
      rw [List.map_cons, get?, get?, inductionHypothesis]
      split <;> rfl

end Table

namespace Heap

variable {heap : Heap} {above : List Cell} {cell : Cell} {value : Value}

/-! ## Unfolding without a bound -/

theorem way_nil (heap : Heap) : heap.Way [] :=
  ⟨List.nodup_nil, fun _ member => absurd member List.not_mem_nil⟩

theorem Way.below (way : heap.Way above) (outside : cell ∉ above)
    (member : value ∈ (heap.read cell).values) : heap.Way (cell :: above) :=
  ⟨List.nodup_cons.mpr ⟨outside, way.1⟩,
    List.forall_mem_cons.mpr ⟨lt_size_of_mem_read member, way.2⟩⟩

theorem unfoldBelow_add {depth : Nat} (way : heap.Way above) (value : Value)
    (deep : heap.size + 2 ≤ depth + above.length) (further : Nat) :
    heap.unfoldBelow (depth + further) above value = heap.unfoldBelow depth above value := by
  induction further with
  | zero => rfl
  | succ further inductionHypothesis =>
      have stillDeep : heap.size + 2 ≤ depth + further + above.length := by omega
      rw [← Nat.add_assoc, unfoldBelow_succ value way.1 way.2 stillDeep, inductionHypothesis]

theorem unfoldUnder_eq {depth : Nat} (way : heap.Way above) (value : Value)
    (deep : heap.size + 2 ≤ depth + above.length) :
    heap.unfoldUnder above value = heap.unfoldBelow depth above value := by
  have deepEnough : heap.size + 2 ≤ heap.size + 2 + above.length := Nat.le_add_right _ _
  rw [unfoldUnder, ← unfoldBelow_add way value deepEnough depth,
    ← unfoldBelow_add way value deep (heap.size + 2), Nat.add_comm]

theorem unfoldUnder_leaf (heap : Heap) (above : List Cell) (leaf : value.cell? = none) :
    heap.unfoldUnder above value = .leaf value := by
  cases value with
  | struct cell => exact nomatch leaf
  | _ => rfl

theorem unfoldUnder_cut (heap : Heap) (inside : cell ∈ above) :
    heap.unfoldUnder above (.struct cell) = .cut := by
  rw [unfoldUnder, unfoldBelow, if_pos inside]

/-- A struct is unfolded by unfolding its entries, with its cell among those above them. -/
theorem unfoldUnder_struct (way : heap.Way above) (outside : cell ∉ above) :
    heap.unfoldUnder above (.struct cell) =
      .struct ((heap.read cell).map fun entry =>
        (entry.1, heap.unfoldUnder (cell :: above) entry.2)) := by
  have deep : heap.size + 2 ≤ heap.size + 1 + (cell :: above).length := by
    rw [List.length_cons]
    omega
  rw [unfoldUnder, unfoldBelow, if_neg outside]
  refine congrArg Unfolding.struct (Table.mapValues_congr fun value member => ?_)
  exact (unfoldUnder_eq (way.below outside member) value deep).symm

theorem unfoldUnder_cases (way : heap.Way above) (value : Value) :
    (value.cell? = none ∧ heap.unfoldUnder above value = .leaf value) ∨
      ∃ cell, value = .struct cell ∧
        ((cell ∈ above ∧ heap.unfoldUnder above value = .cut) ∨
          cell ∉ above ∧ heap.unfoldUnder above value =
            .struct ((heap.read cell).map fun entry =>
              (entry.1, heap.unfoldUnder (cell :: above) entry.2))) := by
  cases value with
  | struct cell =>
      by_cases inside : cell ∈ above
      · exact Or.inr ⟨cell, rfl, Or.inl ⟨inside, unfoldUnder_cut heap inside⟩⟩
      · exact Or.inr ⟨cell, rfl, Or.inr ⟨inside, unfoldUnder_struct way inside⟩⟩
  | _ => exact Or.inl ⟨rfl, unfoldUnder_leaf heap above rfl⟩

theorem Distinct.mapValues {β : Type} (distinct : heap.Distinct) (cell : Cell)
    (change : Value → β) :
    Table.Distinct ((heap.read cell).map fun entry => (entry.1, change entry.2)) := by
  rw [Table.Distinct, Table.keys_mapValues]
  exact distinct cell

end Heap

namespace View

variable {β : Type} {view : View β} {project : Unfolding → β} {heap : Heap}

/-! ## Traversals end and leave the stack as it was -/

private theorem showEntries_restores {inner : Value → StateT (List Cell) Option β}
    {shown : Value → β} {stack : List Cell} {entries : Table Value}
    (restores : ∀ value ∈ entries.values, (inner value).run stack = some (shown value, stack)) :
    (showEntries inner entries).run stack =
      some (entries.map fun entry => (entry.1, shown entry.2), stack) := by
  induction entries with
  | nil => rfl
  | cons entry rest inductionHypothesis =>
      obtain ⟨first, later⟩ := List.forall_mem_cons.mp restores
      have others := inductionHypothesis later
      rw [showEntries] at others ⊢
      simp only [List.mapM_cons, bind_assoc, pure_bind, StateT.run_bind, first, others,
        Option.bind_eq_bind, Option.bind_some]
      rfl

theorem traverse_inside (view : View β) (heap : Heap) (depth : Nat) {stack : List Cell}
    {cell : Cell} (inside : cell ∈ stack) :
    (view.traverse heap (depth + 1) (.struct cell)).run stack = some (view.cut, stack) := by
  rw [traverse, StateT.run_bind, StateT.run_get, pure_bind, if_pos inside]
  rfl

theorem traverse_outside (view : View β) (heap : Heap) {depth : Nat} {stack : List Cell}
    {cell : Cell} {shown : Table β} (outside : cell ∉ stack)
    (entries : (showEntries (view.traverse heap depth) (heap.read cell)).run (cell :: stack) =
      some (shown, cell :: stack)) :
    (view.traverse heap (depth + 1) (.struct cell)).run stack =
      some (view.struct shown, stack) := by
  rw [traverse, StateT.run_bind, StateT.run_get, pure_bind, if_neg outside, StateT.run_bind,
    StateT.run_set, pure_bind, StateT.run_bind, entries]
  rfl

theorem traverse_ends (projects : view.Projects project) (distinct : heap.Distinct)
    {depth : Nat} {stack : List Cell} (value : Value) (way : heap.Way stack)
    (deep : heap.size + 2 ≤ depth + stack.length) :
    (view.traverse heap depth value).run stack =
      some (project (heap.unfoldUnder stack value), stack) := by
  induction depth generalizing stack value with
  | zero =>
      have bounded : stack.length ≤ heap.size := Heap.length_le_size way.1 way.2
      omega
  | succ depth inductionHypothesis =>
      cases value with
      | struct cell =>
          by_cases inside : cell ∈ stack
          · rw [view.traverse_inside heap depth inside, Heap.unfoldUnder_cut heap inside,
              projects.cut]
          · have entries : ∀ value ∈ (heap.read cell).values,
                (view.traverse heap depth value).run (cell :: stack) =
                  some (project (heap.unfoldUnder (cell :: stack) value), cell :: stack) := by
              intro value member
              have deepBelow : heap.size + 2 ≤ depth + (cell :: stack).length := by
                rw [List.length_cons]
                omega
              exact inductionHypothesis value (way.below inside member) deepBelow
            rw [view.traverse_outside heap inside (showEntries_restores entries),
              Heap.unfoldUnder_struct way inside, projects.struct _ (distinct.mapValues cell _),
              List.map_map]
            rfl
      | _ =>
          rw [Heap.unfoldUnder_leaf heap stack rfl, projects.leaf]
          rfl

end View

/-! ## Which occurrences are cut -/

namespace Heap

variable {heap : Heap} {above passed : List Cell} {path : List String} {value target : Value}

/-- A path ends in what it leads to, unless it passes a struct twice or one that is above. -/
theorem at?_unfoldUnder (way : heap.Way above) (path : List String) (value : Value) :
    (heap.unfoldUnder above value).at? path =
      (heap.locate value path).bind fun located =>
        if (located.1.reverse ++ above).Nodup then
          some (heap.unfoldUnder (located.1.reverse ++ above) located.2)
        else none := by
  induction path generalizing above value with
  | nil => exact (if_pos way.1).symm
  | cons key rest inductionHypothesis =>
      cases value with
      | struct cell =>
          have regroup : ∀ below : List Cell,
              (cell :: below).reverse ++ above = below.reverse ++ cell :: above := by
            intro below
            rw [List.reverse_cons, List.append_assoc, List.singleton_append]
          simp only [locate, Option.bind_eq_bind, Option.bind_assoc, Option.pure_def,
            Option.bind_some, regroup]
          by_cases inside : cell ∈ above
          · have twice : ∀ below : List Cell, ¬ (below.reverse ++ cell :: above).Nodup :=
              fun below distinct => (List.nodup_cons.mp distinct.of_append_right).1 inside
            simp only [unfoldUnder_cut heap inside, twice, if_false, Option.bind_fun_none]
            rfl
          · rw [unfoldUnder_struct way inside, Unfolding.at?, Table.get?_mapValues, ← get?]
            cases found : heap.get? cell key with
            | none => rfl
            | some next =>
                have member : next ∈ (heap.read cell).values := Table.mem_values_of_get? found
                exact inductionHypothesis (way.below inside member) next
      | _ => rfl

theorem locate_struct_cons {cell : Cell} {key : String} {rest : List String}
    (located : heap.locate (.struct cell) (key :: rest) = some (passed, target)) :
    ∃ next below, heap.get? cell key = some next ∧
      heap.locate next rest = some (below, target) ∧ passed = cell :: below := by
  simp only [locate, Option.bind_eq_bind, Option.bind_eq_some_iff] at located
  obtain ⟨next, found, ⟨below, there⟩, further, same⟩ := located
  cases same
  exact ⟨next, below, found, further, rfl⟩

/-- Every struct that a path passes is allocated, and leads to what the path leads to. -/
theorem below_of_locate (located : heap.locate value path = some (passed, target)) :
    ∀ cell ∈ passed, cell < heap.size ∧
      ∀ inner, target = .struct inner → TransGen heap.Child cell inner := by
  induction path generalizing value passed with
  | nil =>
      cases located
      exact fun cell member => absurd member List.not_mem_nil
  | cons key rest inductionHypothesis =>
      cases value with
      | struct start =>
          obtain ⟨next, below, found, further, rfl⟩ := locate_struct_cons located
          have child : next ∈ (heap.read start).values := Table.mem_values_of_get? found
          have later := inductionHypothesis further
          refine List.forall_mem_cons.mpr ⟨⟨lt_size_of_get? found, ?_⟩, later⟩
          rintro inner rfl
          cases rest with
          | nil =>
              cases further
              exact .single child
          | cons other others =>
              -- the next value is a struct too, and the rest of the path passes it
              cases next with
              | struct following =>
                  obtain ⟨_, _, _, _, rfl⟩ := locate_struct_cons further
                  exact .head child ((later following List.mem_cons_self).2 inner rfl)
              | _ => exact nomatch further
      | _ => exact nomatch located

theorem Occurs.way (occurs : heap.Occurs value path passed target) : heap.Way passed.reverse := by
  constructor
  · exact List.nodup_reverse.mpr occurs.2
  · intro cell member
    exact (below_of_locate occurs.1 cell (List.mem_reverse.mp member)).1

theorem at?_unfold_eq_some_iff {part : Unfolding} :
    (heap.unfold value).at? path = some part ↔
      ∃ passed target, heap.Occurs value path passed target ∧
        part = heap.unfoldUnder passed.reverse target := by
  have unfolded : (heap.unfold value).at? path = _ := at?_unfoldUnder heap.way_nil path value
  rw [unfolded, Option.bind_eq_some_iff]
  simp only [List.append_nil, List.nodup_reverse]
  constructor
  · rintro ⟨⟨passed, target⟩, located, isPart⟩
    by_cases once : passed.Nodup
    · rw [if_pos once] at isPart
      exact ⟨passed, target, ⟨located, once⟩, (Option.some.inj isPart).symm⟩
    · rw [if_neg once] at isPart
      exact nomatch isPart
  · rintro ⟨passed, target, ⟨located, once⟩, rfl⟩
    exact ⟨(passed, target), located, if_pos once⟩

theorem avoids_nil (heap : Heap) (value : Value) : heap.Avoids value [] :=
  fun _ _ _ member => absurd member List.not_mem_nil

theorem Avoids.below {cell : Cell} (avoids : heap.Avoids (.struct cell) above)
    (noCycle : ¬ heap.ReachesCycle (.struct cell)) (member : value ∈ (heap.read cell).values) :
    heap.Avoids value (cell :: above) := by
  rintro start rfl other isOther reaches
  rcases List.mem_cons.mp isOther with rfl | further
  · exact noCycle ⟨other, other, rfl, .refl, .head' member reaches⟩
  · exact avoids cell rfl other further (.head member reaches)

/-- What reaches no cycle is unfolded alike wherever it reaches none of the structs above it. -/
theorem unfoldUnder_eq_of_avoids {others : List Cell} (noCycle : ¬ heap.ReachesCycle value)
    (way : heap.Way above) (avoids : heap.Avoids value above) (way' : heap.Way others)
    (avoids' : heap.Avoids value others) :
    heap.unfoldUnder above value = heap.unfoldUnder others value := by
  suffices general : ∀ above others, heap.Way above → heap.Avoids value above →
      heap.Way others → heap.Avoids value others → ¬ heap.ReachesCycle value →
      heap.unfoldUnder above value = heap.unfoldUnder others value from
    general above others way avoids way' avoids' noCycle
  refine induction_of_not_reachesCycle ?_ ?_ noCycle
  · intro value leaf above others _ _ _ _ _
    rw [unfoldUnder_leaf heap above leaf, unfoldUnder_leaf heap others leaf]
  · intro cell inductionHypothesis above others way avoids way' avoids' noCycle
    have outside : cell ∉ above := fun inside => avoids cell rfl cell inside .refl
    have outside' : cell ∉ others := fun inside => avoids' cell rfl cell inside .refl
    rw [unfoldUnder_struct way outside, unfoldUnder_struct way' outside']
    refine congrArg Unfolding.struct (Table.mapValues_congr fun value member => ?_)
    exact inductionHypothesis value member _ _ (way.below outside member)
      (avoids.below noCycle member) (way'.below outside' member) (avoids'.below noCycle member)
      (fun reaches => noCycle (reachesCycle_of_mem member reaches))

/-- Where there is no cycle, a struct is unfolded by unfolding its entries. -/
theorem unfold_struct {cell : Cell} (noCycle : ¬ heap.ReachesCycle (.struct cell)) :
    heap.unfold (.struct cell) =
      .struct ((heap.read cell).map fun entry => (entry.1, heap.unfold entry.2)) := by
  have unfolded : heap.unfold (.struct cell) = _ :=
    unfoldUnder_struct heap.way_nil List.not_mem_nil
  rw [unfolded]
  refine congrArg Unfolding.struct (Table.mapValues_congr fun value member => ?_)
  exact unfoldUnder_eq_of_avoids (fun reaches => noCycle (reachesCycle_of_mem member reaches))
    (heap.way_nil.below List.not_mem_nil member) ((heap.avoids_nil _).below noCycle member)
    heap.way_nil (heap.avoids_nil value)

theorem cutsCycles_unfold (heap : Heap) (value : Value) :
    heap.CutsCycles value (heap.unfold value) := by
  constructor
  case leaf =>
    intro path leaf
    rw [at?_unfold_eq_some_iff]
    constructor
    · rintro ⟨passed, target, occurs, isLeaf⟩
      rcases unfoldUnder_cases occurs.way target with
        ⟨noStruct, unfolded⟩ | ⟨cell, _, ⟨_, unfolded⟩ | ⟨_, unfolded⟩⟩
      · rw [unfolded] at isLeaf
        cases isLeaf
        exact ⟨noStruct, passed, occurs⟩
      · exact nomatch isLeaf.trans unfolded
      · exact nomatch isLeaf.trans unfolded
    · rintro ⟨isLeaf, passed, occurs⟩
      exact ⟨passed, leaf, occurs, (unfoldUnder_leaf heap _ isLeaf).symm⟩
  case cut =>
    intro path
    rw [at?_unfold_eq_some_iff]
    constructor
    · rintro ⟨passed, target, occurs, isCut⟩
      rcases unfoldUnder_cases occurs.way target with
        ⟨_, unfolded⟩ | ⟨cell, rfl, ⟨inside, _⟩ | ⟨_, unfolded⟩⟩
      · exact nomatch isCut.trans unfolded
      · exact ⟨passed, cell, occurs, List.mem_reverse.mp inside⟩
      · exact nomatch isCut.trans unfolded
    · rintro ⟨passed, cell, occurs, inside⟩
      exact ⟨passed, .struct cell, occurs,
        (unfoldUnder_cut heap (List.mem_reverse.mpr inside)).symm⟩
  case struct =>
    intro path keys
    simp only [at?_unfold_eq_some_iff]
    constructor
    · rintro ⟨entries, ⟨passed, target, occurs, isStruct⟩, rfl⟩
      rcases unfoldUnder_cases occurs.way target with
        ⟨_, unfolded⟩ | ⟨cell, rfl, ⟨_, unfolded⟩ | ⟨outside, unfolded⟩⟩
      · exact nomatch isStruct.trans unfolded
      · exact nomatch isStruct.trans unfolded
      · rw [unfolded] at isStruct
        cases isStruct
        exact ⟨passed, cell, occurs, fun inside => outside (List.mem_reverse.mpr inside),
          Table.keys_mapValues _ _⟩
    · rintro ⟨passed, cell, occurs, outside, rfl⟩
      have outside' : cell ∉ passed.reverse := fun inside => outside (List.mem_reverse.mp inside)
      exact ⟨_, ⟨passed, .struct cell, occurs, (unfoldUnder_struct occurs.way outside').symm⟩,
        Table.keys_mapValues _ _⟩
  case full =>
    intro path passed target occurs noCycle
    refine at?_unfold_eq_some_iff.mpr ⟨passed, target, occurs, ?_⟩
    refine unfoldUnder_eq_of_avoids noCycle heap.way_nil (heap.avoids_nil target) occurs.way ?_
    rintro start rfl cell member reaches
    have around : TransGen heap.Child cell start :=
      (below_of_locate occurs.1 cell (List.mem_reverse.mp member)).2 start rfl
    exact noCycle ⟨start, start, rfl, .refl, .trans_right reaches around⟩

end Heap

/-! ## Plain recursion -/

namespace View

variable {β : Type} {view : View β} {project : Unfolding → β} {heap : Heap} {value : Value}

private theorem showEntries_eq_some {inner : Value → Option β} {shown : Value → β}
    {entries : Table Value} (shows : ∀ value ∈ entries.values, inner value = some (shown value)) :
    showEntries inner entries = some (entries.map fun entry => (entry.1, shown entry.2)) := by
  induction entries with
  | nil => rfl
  | cons entry rest inductionHypothesis =>
      obtain ⟨first, later⟩ := List.forall_mem_cons.mp shows
      have others := inductionHypothesis later
      rw [showEntries] at others ⊢
      rw [List.mapM_cons, first, others]
      rfl

private theorem showEntries_eq_none {inner : Value → Option β} {entries : Table Value}
    {value : Value} (member : value ∈ entries.values) (unshown : inner value = none) :
    showEntries inner entries = none := by
  induction entries with
  | nil => exact absurd member List.not_mem_nil
  | cons entry rest inductionHypothesis =>
      rw [showEntries, List.mapM_cons]
      rcases List.mem_cons.mp member with rfl | later
      · rw [unshown]
        rfl
      · have others := inductionHypothesis later
        rw [showEntries] at others
        rw [others]
        cases inner entry.2 <;> rfl

/-- Deep enough, plain recursion shows a value that reaches no cycle as the traversal does. -/
theorem plain_ends (projects : view.Projects project) (distinct : heap.Distinct)
    (noCycle : ¬ heap.ReachesCycle value) :
    ∃ enough, ∀ depth ≥ enough,
      view.plain heap depth value = some (project (heap.unfold value)) := by
  suffices general : ¬ heap.ReachesCycle value → ∃ enough, ∀ depth ≥ enough,
      view.plain heap depth value = some (project (heap.unfold value)) from general noCycle
  refine Heap.induction_of_not_reachesCycle ?_ ?_ noCycle
  · intro value leaf _
    refine ⟨1, fun depth deep => ?_⟩
    obtain ⟨level, rfl⟩ := Nat.exists_eq_add_of_le' deep
    have unfolded : heap.unfold value = .leaf value := Heap.unfoldUnder_leaf heap [] leaf
    rw [unfolded, projects.leaf]
    cases value with
    | struct cell => exact nomatch leaf
    | _ => rfl
  · intro cell inductionHypothesis noCycle
    -- a struct has finitely many entries, so there is one depth that is enough for all of them
    have common : ∀ᶠ depth in Filter.atTop, ∀ value ∈ (heap.read cell).values,
        view.plain heap depth value = some (project (heap.unfold value)) := by
      refine (Filter.eventually_all_finite (List.finite_toSet _)).mpr fun value member => ?_
      exact Filter.eventually_atTop.mpr (inductionHypothesis value member
        fun reaches => noCycle (Heap.reachesCycle_of_mem member reaches))
    obtain ⟨enough, shows⟩ := Filter.eventually_atTop.mp common
    refine ⟨enough + 1, fun depth deep => ?_⟩
    obtain ⟨level, rfl⟩ := Nat.exists_eq_add_of_le' (Nat.le_of_add_left_le deep)
    have entries := showEntries_eq_some (shows level (Nat.le_of_add_le_add_right deep))
    rw [plain, entries, Heap.unfold_struct noCycle,
      projects.struct _ (distinct.mapValues cell heap.unfold), List.map_map]
    rfl

theorem plain_of_reachesCycle (view : View β) (reaches : heap.ReachesCycle value) (depth : Nat) :
    view.plain heap depth value = none := by
  induction depth generalizing value with
  | zero => rfl
  | succ depth inductionHypothesis =>
      obtain ⟨cell, _, rfl, _⟩ := id reaches
      obtain ⟨value, member, below⟩ := reaches.exists_mem
      rw [plain, showEntries_eq_none member (inductionHypothesis below)]
      rfl

/-! ## Text and data -/

private theorem entryTexts_eq (entries : List (String × Unfolding)) :
    Unfolding.entryTexts entries =
      entries.map fun entry => String.join [entry.1, ": ", entry.2.text] := by
  induction entries with
  | nil => rfl
  | cons entry rest inductionHypothesis =>
      rw [Unfolding.entryTexts, inductionHypothesis]
      rfl

private theorem entryTrees_eq (entries : List (String × Unfolding)) :
    Unfolding.entryTrees entries = entries.map fun entry => (entry.1, entry.2.toJson) := by
  induction entries with
  | nil => rfl
  | cons entry rest inductionHypothesis =>
      rw [Unfolding.entryTrees, inductionHypothesis]
      rfl

theorem text_projects : text.Projects Unfolding.text := by
  constructor
  case leaf => exact fun value => rfl
  case cut => rfl
  case struct =>
    intro entries _
    rw [Unfolding.text, entryTexts_eq]
    simp only [text, List.map_map]
    rfl

theorem data_projects : data.Projects Unfolding.toJson := by
  constructor
  case leaf => exact fun value => rfl
  case cut => rfl
  case struct =>
    intro entries distinct
    have distinctMembers :
        Table.Distinct (entries.map fun entry => (entry.1, entry.2.toJson)) := by
      rw [Table.Distinct, Table.keys_mapValues]
      exact distinct
    have members : Table.ofList (entries.map fun entry => (entry.1, entry.2.toJson)) =
        entries.map fun entry => (entry.1, entry.2.toJson) :=
      Table.overlay_of_distinct distinctMembers
    rw [Unfolding.toJson, entryTrees_eq]
    simp only [data, members]

end View

theorem not_isReserved (name : String) : (!isReserved name) = decide (Visible name) := by
  rw [Bool.eq_iff_iff, decide_eq_true_eq, Bool.not_eq_true', isReserved]
  split
  · rename_i letters
    simp [Visible, letters]
  · rename_i letters
    simp [Visible, letters]
  · rename_i noUnderscores noDollar
    refine iff_of_true rfl ⟨?_, ?_⟩
    · rintro ⟨rest, letters⟩
      exact noUnderscores rest letters.symm
    · rintro ⟨rest, letters⟩
      exact noDollar rest letters.symm

theorem Heap.scopeJson_eq (heap : Heap) (scope : Cell) :
    heap.scopeJson scope = .object (heap.shownBindings scope) := by
  simp only [scopeJson, shownBindings, not_isReserved]

/-- No name is bound twice, so an object that gets the bindings one after another keeps them all. -/
theorem Heap.ofList_shownBindings {heap : Heap} (distinct : heap.Distinct) (scope : Cell) :
    Table.ofList (heap.shownBindings scope) = heap.shownBindings scope := by
  refine @Table.overlay_of_distinct _ [] _ ?_
  rw [List.nil_append, shownBindings, Table.Distinct, Table.keys_mapValues]
  exact (distinct scope).filter _

/-! ## Main result -/

/-- Over every heap whose tables list no key twice, showing a value as text or as data ends and
leaves the stack empty. What is shown is one unfolding of the value, in which a struct is cut where
its cell occurs on the way down from the root and nowhere else. Plain recursion shows the same if
the value reaches no cycle, and does not end otherwise. A scope is an object of its visible bindings
in order, which is what it becomes if it gets them one after another. -/
theorem traversals_cut_exactly_cycles {heap : Heap} (distinct : heap.Distinct) :
    (∀ value, ∀ depth ≥ heap.size + 2,
      (View.text.traverse heap depth value).run [] = some (heap.display value, []) ∧
        (View.data.traverse heap depth value).run [] = some (heap.toJson value, [])) ∧
      (∀ value, heap.CutsCycles value (heap.unfold value) ∧
        heap.display value = (heap.unfold value).text ∧
        heap.toJson value = (heap.unfold value).toJson) ∧
      (∀ value, ¬ heap.ReachesCycle value → ∃ enough, ∀ depth ≥ enough,
        View.text.plain heap depth value = some (heap.display value) ∧
          View.data.plain heap depth value = some (heap.toJson value)) ∧
      (∀ value, heap.ReachesCycle value → ∀ depth,
        View.text.plain heap depth value = none ∧ View.data.plain heap depth value = none) ∧
      ∀ scope, heap.scopeJson scope = .object (heap.shownBindings scope) ∧
        heap.scopeJson scope = View.data.struct (heap.shownBindings scope) := by
  refine ⟨?_, ?_, ?_, ?_, ?_⟩
  · intro value depth deep
    have deepEnough : heap.size + 2 ≤ depth + ([] : List Cell).length := deep
    exact ⟨View.traverse_ends View.text_projects distinct value heap.way_nil deepEnough,
      View.traverse_ends View.data_projects distinct value heap.way_nil deepEnough⟩
  · exact fun value => ⟨heap.cutsCycles_unfold value, rfl, rfl⟩
  · intro value noCycle
    obtain ⟨enough, shows⟩ := View.plain_ends View.text_projects distinct noCycle
    obtain ⟨enough', shows'⟩ := View.plain_ends View.data_projects distinct noCycle
    refine ⟨max enough enough', fun depth deep => ?_⟩
    exact ⟨shows depth (le_of_max_le_left deep), shows' depth (le_of_max_le_right deep)⟩
  · intro value reaches depth
    exact ⟨View.plain_of_reachesCycle _ reaches depth, View.plain_of_reachesCycle _ reaches depth⟩
  · intro scope
    have members : View.data.struct (heap.shownBindings scope) =
        .object (heap.shownBindings scope) :=
      congrArg Json.object (Heap.ofList_shownBindings distinct scope)
    rw [members, heap.scopeJson_eq]
    exact ⟨rfl, rfl⟩

/-- A scope that binds itself twice, and a struct whose two fields are one struct. -/
private def loopAndShare : Heap :=
  ⟨#[[("me", .struct 0), ("two", .struct 1), ("$", .struct 0)],
    [("a", .struct 2), ("b", .struct 2)], []]⟩

theorem scope_binding_itself_is_shown_once :
    loopAndShare.ReachesCycle (.struct 0) ∧
      (View.text.traverse loopAndShare 5 (.struct 0)).run [] =
        some
          ("\x7bme: \x7b...\x7d, two: \x7ba: \x7b\x7d, b: \x7b\x7d\x7d, $: \x7b...\x7d\x7d",
            []) ∧
      (∀ depth, View.text.plain loopAndShare depth (.struct 0) = none) ∧
      loopAndShare.scopeJson 0 =
        .object
          [("me", .object
              [("me", .null), ("two", .object [("a", .object []), ("b", .object [])]),
                ("$", .null)]),
            ("two", .object [("a", .object []), ("b", .object [])])] := by
  have distinct : loopAndShare.Distinct := Heap.read_induction List.nodup_nil (by decide)
  have loops : loopAndShare.ReachesCycle (.struct 0) :=
    ⟨0, 0, rfl, .refl, .single List.mem_cons_self⟩
  obtain ⟨ends, _, _, endless, scopes⟩ := traversals_cut_exactly_cycles distinct
  refine ⟨loops, ?_, fun depth => (endless (.struct 0) loops depth).1, ?_⟩
  · rw [(ends (.struct 0) 5 (by decide)).1]
    rfl
  · rw [(scopes 0).1]
    rfl

end Tabula
