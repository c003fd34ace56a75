import Mathlib.Data.Set.Card
import Tabula.Proofs.Assignment
import Tabula.Proofs.Bounds

/-!
# Merging ends

Storing a struct over another stores each of its entries in the other one, which may merge further
structs, and so on along cycles. A pair of cells is never merged inside itself, and all cells that
are ever merged are reached from the two structs as they were at first: merging writes links between
these cells only, and allocates none. So the calls nest no more deeply than there are pairs of such
cells, and one level more.
-/

namespace Tabula

/-- A call that stores a value under a key while pairs of cells are being merged. -/
structure StoreCall where
  heap : Heap
  merging : List (Cell × Cell)
  cell : Cell
  key : String
  value : Value

namespace StoreCall

/-- The first call merges a struct, and the second one stores an entry of it on the way. -/
inductive Nests : StoreCall → StoreCall → Prop
  | entry {heap between : Heap} {merging : List (Cell × Cell)} {cell destination source : Cell}
      {key : String} {depth : Nat} {earlier later : List (String × Value)}
      {entry : String × Value} :
      heap.get? cell key = some (.struct destination) →
      destination ≠ source →
      (destination, source) ∉ merging →
      heap.read source = earlier ++ entry :: later →
      Heap.mergeWithin depth ((destination, source) :: merging) destination earlier heap =
        some between →
      Nests ⟨heap, merging, cell, key, .struct source⟩
        ⟨between, (destination, source) :: merging, destination, entry.1, entry.2⟩

end StoreCall

namespace Heap

variable {heap merged : Heap} {merging : List (Cell × Cell)} {cell destination source : Cell}
  {key : String} {value : Value} {depth : Nat}

theorem mergeWithin_append (first second : List (String × Value)) :
    mergeWithin depth merging destination (first ++ second) heap =
      (mergeWithin depth merging destination first heap).bind
        (mergeWithin depth merging destination second) := by
  induction first generalizing heap with
  | nil => rfl
  | cons entry rest inductionHypothesis =>
      rw [List.cons_append, mergeWithin, mergeWithin, Option.bind_assoc]
      exact Option.bind_congr fun next _ => inductionHypothesis

theorem mergeWithin_concat {between next : Heap} {earlier : List (String × Value)}
    {entry : String × Value}
    (folded : mergeWithin depth merging destination earlier heap = some between)
    (stored : between.storeWithin depth merging destination entry.1 entry.2 = some next) :
    mergeWithin depth merging destination (earlier ++ [entry]) heap = some next := by
  rw [mergeWithin_append, folded, Option.bind_some, mergeWithin, stored]
  rfl

/-! ## Cells that merging stays among -/

/-- The structs in the fields of cells of a sort are of the sort. -/
def Sealed (heap : Heap) (sort : Cell → Prop) : Prop :=
  ∀ cell, sort cell → ∀ inner, heap.Child cell inner → sort inner

variable {sort : Cell → Prop}

theorem Sealed.reaches (isSealed : heap.Sealed sort) (here : sort cell) {inner : Cell}
    (reached : Relation.ReflTransGen heap.Child cell inner) : sort inner := by
  induction reached with
  | refl => exact here
  | tail _ child inductionHypothesis => exact isSealed _ inductionHypothesis _ child

theorem Sealed.slot (isSealed : heap.Sealed sort) (here : sort cell) :
    ∀ inner, heap.get? cell key = some (.struct inner) → sort inner :=
  fun inner found => isSealed cell here inner (Table.mem_values_of_get? found)

theorem Sealed.entry (isSealed : heap.Sealed sort) (here : sort cell) {entry : String × Value}
    (member : entry ∈ heap.read cell) : ∀ inner, entry.2 = .struct inner → sort inner := by
  intro inner isStruct
  have child : entry.2 ∈ (heap.read cell).values := List.mem_map_of_mem member
  rw [isStruct] at child
  exact isSealed cell here inner child

theorem Sealed.insert (isSealed : heap.Sealed sort)
    (stored : ∀ inner, value = .struct inner → sort inner) :
    (heap.insert cell key value).Sealed sort := by
  intro other here inner child
  rcases mem_read_insert child with ⟨_, isNew⟩ | old
  · exact stored inner isNew.symm
  · exact isSealed other here inner old

theorem Sealed.storeWithin (isSealed : heap.Sealed sort)
    (slot : ∀ inner, heap.get? cell key = some (.struct inner) → sort inner)
    (incoming : ∀ inner, value = .struct inner → sort inner)
    (stored : heap.storeWithin depth merging cell key value = some merged) :
    merged.Sealed sort := by
  induction depth generalizing heap merging merged cell key value with
  | zero => exact nomatch stored
  | succ depth inductionHypothesis =>
      rcases storeWithin_cases stored with
        ⟨rfl, _⟩ | ⟨destination, source, found, rfl, _, ⟨rfl, _⟩ | ⟨_, folded⟩⟩
      · exact isSealed.insert incoming
      · exact isSealed
      · have sortDestination : sort destination := slot destination found
        refine mergeWithin_induction (motive := fun between => between.Sealed sort) folded isSealed
          fun entry member before _ sealedBefore first => ?_
        exact inductionHypothesis sealedBefore (sealedBefore.slot sortDestination)
          (isSealed.entry (incoming source rfl) member) first

end Heap

namespace StoreCall

variable {sort : Cell → Prop} {call inner : StoreCall}

/-- A call whose structs are of a sort that is closed under fields. -/
structure Within (call : StoreCall) (sort : Cell → Prop) : Prop where
  isSealed : call.heap.Sealed sort
  slot : ∀ inner, call.heap.get? call.cell call.key = some (.struct inner) → sort inner
  incoming : ∀ inner, call.value = .struct inner → sort inner
  pairs : ∀ pair ∈ call.merging, sort pair.1 ∧ sort pair.2
  distinct : call.merging.Nodup

theorem Nests.within (nests : call.Nests inner) (within : call.Within sort) :
    inner.Within sort ∧ inner.heap.size = call.heap.size := by
  obtain ⟨found, different, outside, split, folded⟩ := nests
  rename_i heap between merging cell destination source key depth earlier later entry
  have sortDestination : sort destination := within.slot destination found
  have sortSource : sort source := within.incoming source rfl
  have entries : ∀ entry ∈ heap.read source, ∀ inner, entry.2 = .struct inner → sort inner :=
    fun entry => within.isSealed.entry sortSource
  have member : ∀ entry ∈ earlier, entry ∈ heap.read source := by
    intro entry here
    rw [split]
    exact List.mem_append_left _ here
  have sealedBetween : between.Sealed sort := by
    refine Heap.mergeWithin_induction (motive := fun between => between.Sealed sort) folded
      within.isSealed fun entry here before _ sealedBefore stored => ?_
    exact sealedBefore.storeWithin (sealedBefore.slot sortDestination)
      (entries entry (member entry here)) stored
  have here : entry ∈ heap.read source := by
    rw [split]
    exact List.mem_append_right _ List.mem_cons_self
  refine ⟨⟨sealedBetween, sealedBetween.slot sortDestination, entries entry here, ?_, ?_⟩, ?_⟩
  · exact List.forall_mem_cons.mpr ⟨⟨sortDestination, sortSource⟩, within.pairs⟩
  · exact List.nodup_cons.mpr ⟨outside, within.distinct⟩
  · exact Heap.size_mergeWithin folded

theorem within_of_nested (nested : Relation.ReflTransGen Nests call inner)
    (within : call.Within sort) : inner.Within sort ∧ inner.heap.size = call.heap.size := by
  induction nested with
  | refl => exact ⟨within, rfl⟩
  | tail _ nests inductionHypothesis =>
      have step := nests.within inductionHypothesis.1
      exact ⟨step.1, step.2.trans inductionHypothesis.2⟩

/-- A merge ends if the calls for the entries of its source end. -/
theorem merge_ends {heap : Heap} {merging : List (Cell × Cell)} {cell destination source : Cell}
    {key : String} {depth : Nat} (found : heap.get? cell key = some (.struct destination))
    (different : destination ≠ source) (outside : (destination, source) ∉ merging)
    (ends : ∀ nested : StoreCall, Nests ⟨heap, merging, cell, key, .struct source⟩ nested →
      nested.merging = (destination, source) :: merging → ∃ after,
        nested.heap.storeWithin depth nested.merging nested.cell nested.key nested.value =
          some after) :
    ∃ merged, Heap.mergeWithin depth ((destination, source) :: merging) destination
      (heap.read source) heap = some merged := by
  -- the entries stored so far make the next call a nested one
  have remaining : ∀ (later earlier : List (String × Value)) (between : Heap),
      heap.read source = earlier ++ later →
      Heap.mergeWithin depth ((destination, source) :: merging) destination earlier heap =
        some between →
      ∃ merged, Heap.mergeWithin depth ((destination, source) :: merging) destination later
        between = some merged := by
    intro later
    induction later with
    | nil => exact fun earlier between _ _ => ⟨between, rfl⟩
    | cons entry rest restEnds =>
        intro earlier between split folded
        obtain ⟨next, stored⟩ := ends _ (.entry found different outside split folded) rfl
        obtain ⟨merged, foldedRest⟩ :=
          restEnds (earlier ++ [entry]) next (by rw [split, List.append_cons])
            (Heap.mergeWithin_concat folded stored)
        exact ⟨merged, Option.bind_eq_some_iff.mpr ⟨next, stored, foldedRest⟩⟩
  exact remaining (heap.read source) [] heap rfl rfl

/-- If distinct pairs of cells of the sort are no more than a bound, then calls end within one level
more than there are pairs left. -/
theorem Within.ends {pairs depth : Nat} (within : call.Within sort)
    (few : ∀ merging : List (Cell × Cell), merging.Nodup →
      (∀ pair ∈ merging, sort pair.1 ∧ sort pair.2) → merging.length ≤ pairs)
    (deep : pairs + 1 ≤ depth + call.merging.length) :
    ∃ merged,
      call.heap.storeWithin depth call.merging call.cell call.key call.value = some merged := by
  induction depth generalizing call with
  | zero =>
      have bounded : call.merging.length ≤ pairs := few call.merging within.distinct within.pairs
      omega
  | succ depth inductionHypothesis =>
      obtain ⟨heap, merging, cell, key, value⟩ := call
      rcases heap.replaces_or_structs cell key value with
        replaces | ⟨destination, source, found, rfl⟩
      · exact ⟨_, Heap.storeWithin_of_replaces depth merging replaces⟩
      · simp only [Heap.storeWithin_struct depth merging found]
        by_cases same : destination = source
        · rw [if_pos same]
          exact ⟨_, rfl⟩
        · rw [if_neg same]
          by_cases inside : (destination, source) ∈ merging
          · rw [if_pos inside]
            exact ⟨heap, rfl⟩
          · rw [if_neg inside]
            refine merge_ends found same inside fun nested nests sameMerging => ?_
            refine inductionHypothesis (nests.within within).1 ?_
            have bounded : pairs + 1 ≤ depth + 1 + merging.length := deep
            rw [sameMerging, List.length_cons]
            omega

/-- What the calls for the entries of a source keep, their merge keeps. -/
theorem merge_induction {motive : Heap → Prop} {heap merged : Heap}
    {merging : List (Cell × Cell)} {cell destination source : Cell} {key : String} {depth : Nat}
    (found : heap.get? cell key = some (.struct destination)) (different : destination ≠ source)
    (outside : (destination, source) ∉ merging)
    (folded : Heap.mergeWithin depth ((destination, source) :: merging) destination
      (heap.read source) heap = some merged)
    (start : motive heap)
    (step : ∀ nested : StoreCall, Nests ⟨heap, merging, cell, key, .struct source⟩ nested →
      nested.cell = destination → ∀ after : Heap, motive nested.heap →
        nested.heap.storeWithin depth nested.merging nested.cell nested.key nested.value =
          some after → motive after) :
    motive merged := by
  have remaining : ∀ (later earlier : List (String × Value)) (between : Heap),
      heap.read source = earlier ++ later →
      Heap.mergeWithin depth ((destination, source) :: merging) destination earlier heap =
        some between →
      Heap.mergeWithin depth ((destination, source) :: merging) destination later between =
        some merged →
      motive between → motive merged := by
    intro later
    induction later with
    | nil =>
        intro earlier between _ _ rest kept
        cases rest
        exact kept
    | cons entry rest restKeeps =>
        intro earlier between split foldedBefore foldedAfter kept
        rw [Heap.mergeWithin, Option.bind_eq_some_iff] at foldedAfter
        obtain ⟨next, stored, foldedRest⟩ := foldedAfter
        have keptNext : motive next :=
          step _ (.entry found different outside split foldedBefore) rfl next kept stored
        exact restKeeps (earlier ++ [entry]) next (by rw [split, List.append_cons])
          (Heap.mergeWithin_concat foldedBefore stored) foldedRest keptNext
  exact remaining (heap.read source) [] heap rfl rfl folded start

end StoreCall

/-! ## The cells that a merge involves -/

namespace Heap

/-- The cells reached through fields from the struct under a key and from an incoming one. -/
def Involved (heap : Heap) (cell : Cell) (key : String) (value : Value) : Set Cell :=
  {inner | ∃ root, (heap.get? cell key = some (.struct root) ∨ value = .struct root) ∧
    Relation.ReflTransGen heap.Child root inner}

variable (heap : Heap) (cell : Cell) (key : String) (value : Value)

theorem finite_involved : (heap.Involved cell key value).Finite := by
  let named : List Cell :=
    ((heap.get? cell key).toList ++ value :: heap.tables.toList.flatMap Table.values).filterMap
      Value.cell?
  refine (List.finite_toSet named).subset ?_
  rintro inner ⟨root, isRoot, reached⟩
  have isNamed : ∀ held,
      held ∈ (heap.get? cell key).toList ++ value :: heap.tables.toList.flatMap Table.values →
      held.cell? = some inner → inner ∈ named :=
    fun held member isStruct => List.mem_filterMap.mpr ⟨held, member, isStruct⟩
  refine isNamed (.struct inner) ?_ rfl
  rcases reached.cases_tail with rfl | ⟨parent, _, child⟩
  · rcases isRoot with found | rfl
    · simp [found]
    · simp
  · have allocated : parent < heap.tables.size := lt_size_of_mem_read child
    have isTable : heap.read parent ∈ heap.tables.toList := by
      simp [read, Array.getD_eq_getD_getElem?, allocated]
    have held : .struct inner ∈ heap.tables.toList.flatMap Table.values :=
      List.mem_flatMap.mpr ⟨heap.read parent, isTable, child⟩
    simp only [List.mem_append, List.mem_cons]
    exact Or.inr (Or.inr held)

theorem within_involved :
    (StoreCall.mk heap [] cell key value).Within fun inner =>
      inner ∈ heap.Involved cell key value where
  isSealed := by
    rintro parent ⟨root, isRoot, reached⟩ inner child
    exact ⟨root, isRoot, reached.tail child⟩
  slot inner found := ⟨inner, Or.inl found, .refl⟩
  incoming inner isStruct := ⟨inner, Or.inr isStruct, .refl⟩
  pairs pair member := absurd member List.not_mem_nil
  distinct := List.nodup_nil

/-- The pairs of cells that a merge involves. -/
def involvedPairs : Set (Cell × Cell) :=
  heap.Involved cell key value ×ˢ heap.Involved cell key value

theorem length_le_ncard_involvedPairs {merging : List (Cell × Cell)} (distinct : merging.Nodup)
    (within : ∀ pair ∈ merging,
      pair.1 ∈ heap.Involved cell key value ∧ pair.2 ∈ heap.Involved cell key value) :
    merging.length ≤ (heap.involvedPairs cell key value).ncard := by
  have finite : (heap.involvedPairs cell key value).Finite :=
    (heap.finite_involved cell key value).prod (heap.finite_involved cell key value)
  have inside : (merging.toFinset : Set (Cell × Cell)) ⊆ heap.involvedPairs cell key value :=
    fun pair member => within pair (List.mem_toFinset.mp member)
  calc
    merging.length = merging.toFinset.card := (List.toFinset_card_of_nodup distinct).symm
    _ = (merging.toFinset : Set (Cell × Cell)).ncard := (Set.ncard_coe_finset _).symm
    _ ≤ (heap.involvedPairs cell key value).ncard := Set.ncard_le_ncard inside finite

/-! ## Storing at the end of a path -/

/-- The struct at the end of a chain of keys, the nearest one first, and the heap after the structs
that are missing on the way are created. -/
def descend (heap : Heap) (cell : Cell) : List String → Cell × Heap
  | [] => (cell, heap)
  | key :: rest => (heap.enter cell key).2.descend (heap.enter cell key).1 rest

variable {heap cell}

theorem storeAt_append (keys : List String) :
    heap.storeAt cell (keys ++ [key]) value =
      (heap.descend cell keys).2.store (heap.descend cell keys).1 key value := by
  induction keys generalizing heap cell with
  | nil => rfl
  | cons first rest inductionHypothesis =>
      rw [List.cons_append, storeAt_cons _ _ _ _ (List.append_ne_nil_of_right_ne_nil _ (by simp))]
      exact inductionHypothesis

/-- Storing a value ends in a heap with as many cells, within one level more than there are pairs of
cells involved. All calls on the way merge different pairs of these cells inside each other. -/
structure StoreEnds (heap : Heap) (cell : Cell) (key : String) (value : Value) (after : Heap) :
    Prop where
  finite : (heap.Involved cell key value).Finite
  ends :
    heap.storeWithin ((heap.involvedPairs cell key value).ncard + 1) [] cell key value = some after
  size : after.size = heap.size
  nested : ∀ call, Relation.ReflTransGen StoreCall.Nests ⟨heap, [], cell, key, value⟩ call →
    call.merging.Nodup ∧ (∀ pair ∈ call.merging, pair ∈ heap.involvedPairs cell key value) ∧
      call.merging.length ≤ (heap.involvedPairs cell key value).ncard ∧
      call.heap.size = heap.size

theorem storeEnds_store (heap : Heap) (cell : Cell) (key : String) (value : Value) :
    heap.StoreEnds cell key value (heap.store cell key value) where
  finite := heap.finite_involved cell key value
  ends := by
    obtain ⟨merged, stored⟩ :=
      (heap.within_involved cell key value).ends
        (fun _ => heap.length_le_ncard_involvedPairs cell key value) (Nat.le_refl _)
    rw [stored, store_of_storeWithin stored]
  size := heap.size_store cell key value
  nested call reached := by
    obtain ⟨within, sameSize⟩ :=
      StoreCall.within_of_nested reached (heap.within_involved cell key value)
    exact ⟨within.distinct, within.pairs,
      heap.length_le_ncard_involvedPairs cell key value within.distinct within.pairs, sameSize⟩

end Heap

/-- Every nested assignment ends on every heap: the structs on the way to the last key are found or
created one after another, and then the value is stored under the last key. -/
theorem nested_assignment_ends (heap : Heap) (scope : Cell) (root : String) (value : Value) :
    heap.assign scope ⟨root, []⟩ value = (heap.enter scope root).2 ∧
      ∀ (last : String) (above : List String),
        (heap.descend scope (root :: above.reverse)).2.StoreEnds
          (heap.descend scope (root :: above.reverse)).1 last value
          (heap.assign scope ⟨root, last :: above⟩ value) := by
  refine ⟨rfl, fun last above => ?_⟩
  have stored :
      heap.assign scope ⟨root, last :: above⟩ value =
        (heap.descend scope (root :: above.reverse)).2.store
          (heap.descend scope (root :: above.reverse)).1 last value := by
    rw [Heap.assign, List.reverse_cons]
    exact Heap.storeAt_append last value above.reverse
  rw [stored]
  exact Heap.storeEnds_store _ _ last value

end Tabula
