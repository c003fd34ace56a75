import Tabula.Proofs.Assignment
import Tabula.Proofs.KeyOrder

/-!
# Merging into a tree

If a struct reaches each of its cells by one path only, then the fields of the struct lead to
separate parts of it. Storing a value under one of its keys changes this entry and the part that the
key leads to, and nothing else. A merge stores under each key at most once, so every part is still
as it was when the merge comes to it, whatever the source shares with the struct.
-/

namespace Tabula

namespace Heap

variable {heap : Heap}

/-! ## Paths -/

theorem follow_append (heap : Heap) (value : Value) (first second : List String) :
    heap.follow value (first ++ second) = heap.follow (heap.follow value first) second :=
  List.foldl_append

/-- Only a struct leads to a struct. -/
theorem exists_struct_of_follow {value : Value} {path : List String} {inner : Cell}
    (leads : heap.follow value path = .struct inner) : ∃ cell, value = .struct cell := by
  cases path with
  | nil => exact ⟨inner, leads⟩
  | cons key rest =>
      cases isStruct : value.cell? with
      | none =>
          rw [heap.follow_of_cell?_eq_none isStruct (List.cons_ne_nil key rest)] at leads
          exact nomatch leads
      | some cell =>
          cases value <;> cases isStruct
          exact ⟨_, rfl⟩

theorem get?_of_follow_cons {cell inner : Cell} {key : String} {rest : List String}
    (leads : heap.follow (.struct cell) (key :: rest) = .struct inner) :
    ∃ next, heap.get? cell key = some (.struct next) ∧
      heap.follow (.struct next) rest = .struct inner := by
  have leadsOn : heap.follow ((heap.get? cell key).getD .void) rest = .struct inner := leads
  obtain ⟨next, isStruct⟩ := exists_struct_of_follow leadsOn
  cases found : heap.get? cell key with
  | none =>
      rw [found] at isStruct
      exact nomatch isStruct
  | some held =>
      rw [found, Option.getD_some] at isStruct leadsOn
      subst isStruct
      exact ⟨next, rfl, leadsOn⟩

theorem follow_cons_of_get? {cell : Cell} {key : String} {value : Value}
    (found : heap.get? cell key = some value) (rest : List String) :
    heap.follow (.struct cell) (key :: rest) = heap.follow value rest := by
  rw [follow, List.foldl_cons, field, found]
  rfl

theorem reaches_of_follow {root inner : Cell} {path : List String}
    (leads : heap.follow (.struct root) path = .struct inner) :
    Relation.ReflTransGen heap.Child root inner := by
  induction path generalizing root with
  | nil =>
      cases leads
      exact .refl
  | cons key rest inductionHypothesis =>
      obtain ⟨next, found, leadsOn⟩ := get?_of_follow_cons leads
      exact .head (Table.mem_values_of_get? found) (inductionHypothesis leadsOn)

/-- Paths through cells that stay the same lead to the same values. -/
theorem follow_congr {after : Heap} {value : Value}
    (same : ∀ path cell, heap.follow value path = .struct cell →
      after.read cell = heap.read cell) (path : List String) :
    after.follow value path = heap.follow value path := by
  induction path generalizing value with
  | nil => rfl
  | cons key rest inductionHypothesis =>
      have sameField : after.field value key = heap.field value key := by
        cases value with
        | struct cell => rw [field, field, get?, get?, same [] cell rfl]
        | _ => rfl
      have sameBelow : ∀ path cell, heap.follow (heap.field value key) path = .struct cell →
          after.read cell = heap.read cell := fun path => same (key :: path)
      calc
        after.follow value (key :: rest) = after.follow (heap.field value key) rest := by
          rw [← sameField]
          rfl
        _ = heap.follow (heap.field value key) rest := inductionHypothesis sameBelow

/-- No struct is reached from the root by two different paths. -/
def UniquePaths (heap : Heap) (root : Cell) : Prop :=
  ∀ first second inner, heap.follow (.struct root) first = .struct inner →
    heap.follow (.struct root) second = .struct inner → first = second

/-- The cell is in the part of a struct that a key leads to. -/
def Part (heap : Heap) (cell : Cell) (key : String) (inner : Cell) : Prop :=
  ∃ path, heap.follow (.struct cell) (key :: path) = .struct inner

variable {cell inner next : Cell} {key other : String}

theorem Part.reaches (part : heap.Part cell key inner) :
    Relation.ReflTransGen heap.Child cell inner := by
  obtain ⟨path, leads⟩ := part
  exact reaches_of_follow leads

theorem part_of_get? (found : heap.get? cell key = some (.struct next)) :
    heap.Part cell key next :=
  ⟨[], follow_cons_of_get? found []⟩

theorem Part.below (found : heap.get? cell key = some (.struct next))
    (part : heap.Part next other inner) : heap.Part cell key inner := by
  obtain ⟨path, leads⟩ := part
  exact ⟨other :: path, (follow_cons_of_get? found (other :: path)).trans leads⟩

theorem UniquePaths.below (unique : heap.UniquePaths cell)
    (found : heap.get? cell key = some (.struct next)) : heap.UniquePaths next := by
  intro first second inner leadsFirst leadsSecond
  have same : key :: first = key :: second :=
    unique _ _ inner ((follow_cons_of_get? found first).trans leadsFirst)
      ((follow_cons_of_get? found second).trans leadsSecond)
  exact List.tail_eq_of_cons_eq same

theorem UniquePaths.ne_of_part (unique : heap.UniquePaths cell) (part : heap.Part cell key inner) :
    inner ≠ cell := by
  rintro rfl
  obtain ⟨path, leads⟩ := part
  exact absurd (unique _ [] inner leads rfl) (List.cons_ne_nil key path)

theorem UniquePaths.separate (unique : heap.UniquePaths cell) (part : heap.Part cell key inner)
    (otherPart : heap.Part cell other inner) : key = other := by
  obtain ⟨path, leads⟩ := part
  obtain ⟨otherPath, otherLeads⟩ := otherPart
  exact List.head_eq_of_cons_eq (unique _ _ inner leads otherLeads)

/-! ## What a merge into a tree changes -/

theorem Distinct.storeWithin {merged : Heap} {depth : Nat} {merging : List (Cell × Cell)}
    {value : Value} (distinct : heap.Distinct)
    (stored : heap.storeWithin depth merging cell key value = some merged) : merged.Distinct := by
  induction depth generalizing heap merging merged cell key value with
  | zero => exact nomatch stored
  | succ depth inductionHypothesis =>
      rcases storeWithin_cases stored with ⟨rfl, _⟩ | ⟨_, _, _, _, _, ⟨rfl, _⟩ | ⟨_, folded⟩⟩
      · exact distinct.insert cell key value
      · exact distinct
      · exact mergeWithin_induction (motive := Heap.Distinct) folded distinct
          fun _ _ _ _ distinctBefore first => inductionHypothesis distinctBefore first

/-- A key leads to the same part of a struct as in an earlier heap. -/
structure SamePart (base heap : Heap) (cell : Cell) (key : String) : Prop where
  entry : heap.get? cell key = base.get? cell key
  part : ∀ inner, base.Part cell key inner → heap.read inner = base.read inner

/-- Only these keys of a struct, and the parts that they lead to, are changed. -/
structure ChangesOnly (base before after : Heap) (cell : Cell) (keys : List String) : Prop where
  fields : ∀ name ∉ keys, after.get? cell name = before.get? cell name
  others : ∀ other, other ≠ cell → (∀ key ∈ keys, ¬ base.Part cell key other) →
    after.read other = before.read other

variable {base before after : Heap} {keys : List String}

/-- The parts that other keys lead to stay. -/
theorem ChangesOnly.elsewhere (changes : base.ChangesOnly before after cell keys)
    (unique : base.UniquePaths cell) (fresh : key ∉ keys) (part : base.Part cell key inner) :
    after.read inner = before.read inner := by
  refine changes.others inner (unique.ne_of_part part) fun name member otherPart => ?_
  exact fresh (unique.separate part otherPart ▸ member)

theorem ChangesOnly.samePart (changes : base.ChangesOnly before after cell keys)
    (unique : base.UniquePaths cell) (fresh : key ∉ keys) (same : base.SamePart before cell key) :
    base.SamePart after cell key where
  entry := (changes.fields key fresh).trans same.entry
  part inner part := (changes.elsewhere unique fresh part).trans (same.part inner part)

/-- The part that a key leads to is a struct and the parts of this struct. -/
theorem SamePart.below (same : base.SamePart before cell key)
    (found : base.get? cell key = some (.struct next)) (other : String) :
    base.SamePart before next other where
  entry := by rw [get?, get?, same.part next (part_of_get? found)]
  part inner part := same.part inner (part.below found)

/-- A merge into the struct under a key changes only what the key leads to. -/
theorem ChangesOnly.above (unique : base.UniquePaths cell)
    (found : base.get? cell key = some (.struct next))
    (changes : base.ChangesOnly before after next keys) :
    after.read cell = before.read cell ∧ base.ChangesOnly before after cell [key] := by
  have outside : ∀ other, ¬ base.Part cell key other → after.read other = before.read other := by
    intro other apart
    have different : other ≠ next := fun same => apart (same ▸ part_of_get? found)
    exact changes.others other different fun name _ part => apart (part.below found)
  have sameTable : after.read cell = before.read cell :=
    outside cell fun part => unique.ne_of_part part rfl
  refine ⟨sameTable, fun name _ => by rw [get?, get?, sameTable], fun other _ apart => ?_⟩
  exact outside other (apart key List.mem_cons_self)

theorem ChangesOnly.insert (base heap : Heap) (cell : Cell) (key : String) (value : Value) :
    base.ChangesOnly heap (heap.insert cell key value) cell [key] where
  fields name other := by
    have different : (cell, key) ≠ (cell, name) := by
      intro same
      cases same
      exact other List.mem_cons_self
    exact heap.get?_insert_of_ne value different
  others other different _ := heap.read_insert_of_ne key value (Ne.symm different)

/-- Merging entries with different keys changes only what these keys lead to. -/
private theorem ChangesOnly.mergeWithin {depth : Nat} {merging : List (Cell × Cell)}
    {entries : List (String × Value)} (unique : base.UniquePaths cell) (distinct : heap.Distinct)
    (step : ∀ {before after : Heap} {entry : String × Value}, before.Distinct →
      base.SamePart before cell entry.1 →
      before.storeWithin depth merging cell entry.1 entry.2 = some after →
      base.ChangesOnly before after cell [entry.1])
    (distinctEntries : Table.Distinct entries)
    (same : ∀ key ∈ Table.keys entries, base.SamePart heap cell key)
    (folded : Heap.mergeWithin depth merging cell entries heap = some after) :
    base.ChangesOnly heap after cell (Table.keys entries) := by
  induction entries generalizing heap with
  | nil =>
      cases folded
      exact ⟨fun _ _ => rfl, fun _ _ _ => rfl⟩
  | cons entry rest inductionHypothesis =>
      obtain ⟨fresh, distinctRest⟩ := List.nodup_cons.mp distinctEntries
      rw [Heap.mergeWithin, Option.bind_eq_some_iff] at folded
      obtain ⟨next, first, remaining⟩ := folded
      have changesFirst : base.ChangesOnly heap next cell [entry.1] :=
        step distinct (same entry.1 List.mem_cons_self) first
      have sameRest : ∀ key ∈ Table.keys rest, base.SamePart next cell key := by
        intro key member
        have other : key ∉ [entry.1] := fun here => fresh (List.mem_singleton.mp here ▸ member)
        exact changesFirst.samePart unique other (same key (List.mem_cons_of_mem _ member))
      have changesRest :=
        inductionHypothesis (distinct.storeWithin first) distinctRest sameRest remaining
      refine ⟨fun name apart => ?_, fun other different apart => ?_⟩
      · rw [Table.keys, List.map_cons, List.mem_cons, not_or] at apart
        obtain ⟨notFirst, notRest⟩ := apart
        exact (changesRest.fields name notRest).trans
          (changesFirst.fields name (fun here => notFirst (List.mem_singleton.mp here)))
      · obtain ⟨notFirst, notRest⟩ := List.forall_mem_cons.mp apart
        exact (changesRest.others other different notRest).trans
          (changesFirst.others other different (List.forall_mem_singleton.mpr notFirst))

/-- Storing under a key of a tree changes only this entry and the part that the key leads to. -/
theorem changesOnly_storeWithin {depth : Nat} {merging : List (Cell × Cell)} {value : Value}
    (unique : base.UniquePaths cell) (distinct : heap.Distinct)
    (same : base.SamePart heap cell key)
    (stored : heap.storeWithin depth merging cell key value = some after) :
    base.ChangesOnly heap after cell [key] := by
  induction depth generalizing heap merging after cell key value with
  | zero => exact nomatch stored
  | succ depth inductionHypothesis =>
      rcases storeWithin_cases stored with
        ⟨rfl, _⟩ | ⟨destination, source, found, rfl, _, ⟨rfl, _⟩ | ⟨_, folded⟩⟩
      · exact ChangesOnly.insert base heap cell key value
      · exact ⟨fun _ _ => rfl, fun _ _ _ => rfl⟩
      · rw [same.entry] at found
        have uniqueBelow : base.UniquePaths destination := unique.below found
        have changes : base.ChangesOnly heap after destination (heap.read source).keys :=
          ChangesOnly.mergeWithin uniqueBelow distinct
            (fun distinctBefore sameBefore first =>
              inductionHypothesis uniqueBelow distinctBefore sameBefore first)
            (distinct source) (fun name _ => same.below found name) folded
        exact (changes.above unique found).2

theorem changesOnly_mergeWithin {depth : Nat} {merging : List (Cell × Cell)}
    {entries : List (String × Value)} (unique : base.UniquePaths cell) (distinct : heap.Distinct)
    (distinctEntries : Table.Distinct entries)
    (same : ∀ key ∈ Table.keys entries, base.SamePart heap cell key)
    (folded : mergeWithin depth merging cell entries heap = some after) :
    base.ChangesOnly heap after cell (Table.keys entries) :=
  ChangesOnly.mergeWithin unique distinct
    (fun distinctBefore sameBefore first => changesOnly_storeWithin unique distinctBefore
      sameBefore first)
    distinctEntries same folded

end Heap

end Tabula
