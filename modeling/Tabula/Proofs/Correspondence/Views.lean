import Tabula.Proofs.Bounds
import Tabula.Proofs.Correspondence.Basic

/-!
# Views of heaps that correspond

Values that correspond have one text and one tree, compare alike, and are stored alike. The bounds
of these operations depend on the sizes of the two heaps, which may differ; but no bound is ever
used up, so both heaps may be viewed within the greater of the two.
-/

namespace Tabula

/-! ## Unfolding -/

namespace Unfolding

/-- The two have the same text and the same tree. -/
def Alike (left right : Unfolding) : Prop :=
  left.text = right.text ∧ left.toJson = right.toJson

theorem Alike.struct {entries others : List (String × Unfolding)}
    (alike : Table.Alike Alike entries others) :
    Alike (.struct entries) (.struct others) := by
  have same : entryTexts entries = entryTexts others ∧ entryTrees entries = entryTrees others := by
    induction alike with
    | nil => exact ⟨rfl, rfl⟩
    | cons first _ inductionHypothesis =>
        rw [entryTexts, entryTexts, entryTrees, entryTrees, first.1, first.2.1, first.2.2,
          inductionHypothesis.1, inductionHypothesis.2]
        exact ⟨rfl, rfl⟩
  constructor
  · rw [text, text, same.1]
  · rw [toJson, toJson, same.2]

end Unfolding

namespace Correspondence

variable {correspondence : Correspondence}

/-- What is no struct has the same text and the same tree in both runs. -/
private theorem Values.leaf {left right : Value} (values : correspondence.Values left right) :
    Unfolding.Alike (.leaf left) (.leaf right) := by
  cases values with
  | action label body scopes =>
      constructor
      · rw [Unfolding.text, Unfolding.text, Value.leafText, Value.leafText]
        simp only [List.length_map]
        cases scopes <;> rfl
      · rfl
  | _ => exact ⟨rfl, rfl⟩

namespace Heaps

variable {left right : Heap} {value value' : Value}

/-- Within one bound the two unfoldings are cut at the same places. -/
private theorem unfoldBelow (heaps : correspondence.Heaps left right) {depth : Nat}
    {above above' : List Cell} (cellsAbove : List.Forall₂ correspondence.cells above above')
    (values : correspondence.Values value value') :
    Unfolding.Alike (left.unfoldBelow depth above value)
      (right.unfoldBelow depth above' value') := by
  induction depth generalizing above above' value value' with
  | zero => exact ⟨rfl, rfl⟩
  | succ depth inductionHypothesis =>
      cases values with
      | @struct cell other cells =>
          have sameCut : cell ∈ above ↔ other ∈ above' :=
            List.rel_mem correspondence.biUnique_cells cells cellsAbove
          rw [Heap.unfoldBelow, Heap.unfoldBelow]
          by_cases again : cell ∈ above
          · rw [if_pos again, if_pos (sameCut.mp again)]
            exact ⟨rfl, rfl⟩
          · rw [if_neg again, if_neg (mt sameCut.mpr again)]
            apply Unfolding.Alike.struct
            refine List.rel_map ?_ (heaps.tables cells)
            intro entry entry' same
            exact ⟨same.1, inductionHypothesis (.cons cells cellsAbove) same.2⟩
      | action label body scopes => exact (Values.action label body scopes).leaf
      | function name code serials => exact (Values.function name code serials).leaf
      | _ => exact ⟨rfl, rfl⟩

theorem unfold (heaps : correspondence.Heaps left right)
    (values : correspondence.Values value value') :
    Unfolding.Alike (left.unfold value) (right.unfold value') := by
  have leftBound : left.size + 2 ≤ max (left.size + 2) (right.size + 2) := Nat.le_max_left _ _
  have rightBound : right.size + 2 ≤ max (left.size + 2) (right.size + 2) := Nat.le_max_right _ _
  rw [Heap.unfold_eq_unfoldBelow value leftBound, Heap.unfold_eq_unfoldBelow value' rightBound]
  exact heaps.unfoldBelow .nil values

theorem display (heaps : correspondence.Heaps left right)
    (values : correspondence.Values value value') : left.display value = right.display value' :=
  (heaps.unfold values).1

theorem toJson (heaps : correspondence.Heaps left right)
    (values : correspondence.Values value value') : left.toJson value = right.toJson value' :=
  (heaps.unfold values).2

theorem describe (heaps : correspondence.Heaps left right)
    (values : correspondence.Values value value') :
    left.describe value = right.describe value' := by
  rw [Heap.describe, Heap.describe, values.tag, heaps.display values]

end Heaps

/-! ## Equality -/

/-- Tables that correspond compare alike if their values do. -/
private theorem equal?_tables {compare compare' : Value → Value → Option Bool}
    (compares : ∀ {x x' y y' : Value}, correspondence.Values x x' → correspondence.Values y y' →
      compare x y = compare' x' y')
    {left left' right right' : Table Value} (lefts : correspondence.Tables left left')
    (rights : correspondence.Tables right right') :
    Table.equal? compare left right = Table.equal? compare' left' right' := by
  have sameEntries :
      Table.equal?.entries compare right left = Table.equal?.entries compare' right' left' := by
    induction lefts with
    | nil => rfl
    | @cons entry entry' _ _ same _ inductionHypothesis =>
        have found : Option.Rel correspondence.Values (right.get? entry'.1)
            (right'.get? entry'.1) :=
          rights.get? entry'.1
        rw [Table.equal?.entries, Table.equal?.entries, same.1]
        generalize right.get? entry'.1 = other at found ⊢
        generalize right'.get? entry'.1 = other' at found ⊢
        cases found with
        | none => rfl
        | some others => simp only [compares same.2 others, inductionHypothesis]
  rw [Table.equal?, Table.equal?, lefts.length, rights.length, sameEntries]

namespace Heaps

variable {left right : Heap} {x x' y y' : Value}

private theorem equalWithin (heaps : correspondence.Heaps left right) {depth : Nat}
    (firsts : correspondence.Values x x') (seconds : correspondence.Values y y') :
    left.equalWithin depth x y = right.equalWithin depth x' y' := by
  induction depth generalizing x x' y y' with
  | zero => rfl
  | succ depth inductionHypothesis =>
      cases firsts with
      | @struct cell cell' cells =>
          cases seconds with
          | @struct other other' others =>
              have sameCell : cell = other ↔ cell' = other' :=
                Relator.rel_eq correspondence.biUnique_cells cells others
              have sameTables :
                  Table.equal? (left.equalWithin depth) (left.read cell) (left.read other) =
                    Table.equal? (right.equalWithin depth) (right.read cell')
                      (right.read other') :=
                equal?_tables inductionHypothesis (heaps.tables cells) (heaps.tables others)
              simp only [Heap.equalWithin, sameCell, sameTables]
          | _ => rfl
      | @function serial serial' name code serials =>
          cases seconds with
          | @function other other' name' code' others =>
              have sameSerial : serial = other ↔ serial' = other' :=
                Relator.rel_eq correspondence.biUnique_serials serials others
              have sameAnswer : (serial == other) = (serial' == other') :=
                Bool.eq_iff_iff.mpr (by simpa only [beq_iff_eq] using sameSerial)
              exact congrArg some sameAnswer
          | _ => rfl
      | action label body scopes =>
          cases seconds with
          | action label' body' scopes' =>
              have sameLabel :
                  label = label' ↔ correspondence.relabel label = correspondence.relabel label' :=
                correspondence.injective_relabel.eq_iff.symm
              have sameAnswer :
                  (label == label') =
                    (correspondence.relabel label == correspondence.relabel label') :=
                Bool.eq_iff_iff.mpr (by simpa only [beq_iff_eq] using sameLabel)
              exact congrArg some sameAnswer
          | _ => rfl
      | _ => cases seconds <;> rfl

theorem equal? (heaps : correspondence.Heaps left right)
    (firsts : correspondence.Values x x') (seconds : correspondence.Values y y') :
    left.equal? x y = right.equal? x' y' := by
  rw [Heap.equal?_eq_equalWithin x y (Nat.le_max_left _ (right.size * right.size + 1)),
    Heap.equal?_eq_equalWithin x' y' (Nat.le_max_right (left.size * left.size + 1) _)]
  exact heaps.equalWithin firsts seconds

end Heaps

/-! ## Nested assignment -/

/-- Two pairs of cells that correspond one by one. -/
private def Pairs (correspondence : Correspondence) (pair other : Cell × Cell) : Prop :=
  correspondence.cells pair.1 other.1 ∧ correspondence.cells pair.2 other.2

private theorem biUnique_pairs : Relator.BiUnique correspondence.Pairs := by
  constructor
  · intro pair pair' other first second
    exact Prod.ext (correspondence.biUnique_cells.1 first.1 second.1)
      (correspondence.biUnique_cells.1 first.2 second.2)
  · intro pair other other' first second
    exact Prod.ext (correspondence.biUnique_cells.2 first.1 second.1)
      (correspondence.biUnique_cells.2 first.2 second.2)

namespace Heaps

variable {left right : Heap} {cell other : Cell} {value value' : Value}

/-- Merging tables that correspond agrees if storing single entries does. -/
private theorem mergeWithin {depth : Nat} {merging merging' : List (Cell × Cell)}
    (stores : ∀ {left right : Heap} (key : String) {value value' : Value},
      correspondence.Heaps left right → correspondence.Values value value' →
      Option.Rel correspondence.Heaps (left.storeWithin depth merging cell key value)
        (right.storeWithin depth merging' other key value'))
    {entries entries' : Table Value} (tables : correspondence.Tables entries entries')
    (heaps : correspondence.Heaps left right) :
    Option.Rel correspondence.Heaps (Heap.mergeWithin depth merging cell entries left)
      (Heap.mergeWithin depth merging' other entries' right) := by
  induction tables generalizing left right with
  | nil => exact .some heaps
  | @cons entry entry' _ _ same _ inductionHypothesis =>
      have first := stores entry'.1 heaps same.2
      rw [Heap.mergeWithin, Heap.mergeWithin, same.1]
      generalize left.storeWithin depth merging cell entry'.1 entry.2 = next at first ⊢
      generalize right.storeWithin depth merging' other entry'.1 entry'.2 = next' at first ⊢
      cases first with
      | none => exact .none
      | some between => exact inductionHypothesis between

/-- A value replaces what was there in one run if it does in the other. -/
private theorem replaces (heaps : correspondence.Heaps left right)
    (cells : correspondence.cells cell other) {key : String}
    (values : correspondence.Values value value')
    (replaces : value.cell? = none ∨ (left.get? cell key).bind Value.cell? = none) :
    value'.cell? = none ∨ (right.get? other key).bind Value.cell? = none := by
  rcases replaces with noSource | noDestination
  · left
    cases values with
    | struct _ => exact nomatch noSource
    | _ => rfl
  · right
    have found := heaps.get? cells key
    generalize left.get? cell key = here at found noDestination
    generalize right.get? other key = there at found ⊢
    cases found with
    | none => rfl
    | some values =>
        cases values with
        | struct _ => exact nomatch noDestination
        | _ => rfl

/-- Where there is a struct in one run, there is its partner in the other. -/
theorem struct_of_get? (heaps : correspondence.Heaps left right)
    (cells : correspondence.cells cell other) {key : String} {inner : Cell}
    (isHere : left.get? cell key = some (.struct inner)) :
    ∃ inner', right.get? other key = some (.struct inner') ∧
      correspondence.cells inner inner' := by
  have found := heaps.get? cells key
  rw [isHere] at found
  generalize right.get? other key = there at found ⊢
  cases found with
  | some values =>
      cases values with
      | struct inners => exact ⟨_, rfl, inners⟩

private theorem storeWithin (heaps : correspondence.Heaps left right) {depth : Nat}
    {merging merging' : List (Cell × Cell)}
    (pairs : List.Forall₂ correspondence.Pairs merging merging')
    (cells : correspondence.cells cell other) (key : String)
    (values : correspondence.Values value value') :
    Option.Rel correspondence.Heaps (left.storeWithin depth merging cell key value)
      (right.storeWithin depth merging' other key value') := by
  induction depth generalizing left right merging merging' cell other key value value' with
  | zero => exact .none
  | succ depth inductionHypothesis =>
      rcases left.replaces_or_structs cell key value with
        replaces | ⟨destination, source, isHere, rfl⟩
      · rw [Heap.storeWithin_of_replaces depth merging replaces,
          Heap.storeWithin_of_replaces depth merging' (heaps.replaces cells values replaces)]
        exact .some (heaps.insert cells key values)
      · obtain ⟨destination', isThere, destinations⟩ := heaps.struct_of_get? cells isHere
        cases values with
        | @struct _ source' sources =>
            have sameCell : destination = source ↔ destination' = source' :=
              Relator.rel_eq correspondence.biUnique_cells destinations sources
            have samePair : (destination, source) ∈ merging ↔ (destination', source') ∈ merging' :=
              List.rel_mem biUnique_pairs ⟨destinations, sources⟩ pairs
            rw [Heap.storeWithin_struct depth merging isHere,
              Heap.storeWithin_struct depth merging' isThere]
            by_cases same : destination = source
            · rw [if_pos same, if_pos (sameCell.mp same)]
              exact .some (heaps.insert cells key (.struct sources))
            · rw [if_neg same, if_neg (mt sameCell.mpr same)]
              by_cases inside : (destination, source) ∈ merging
              · rw [if_pos inside, if_pos (samePair.mp inside)]
                exact .some heaps
              · rw [if_neg inside, if_neg (mt samePair.mpr inside)]
                apply mergeWithin _ (heaps.tables sources) heaps
                intro left right key value value' between values
                exact inductionHypothesis between (.cons ⟨destinations, sources⟩ pairs)
                  destinations key values

theorem store (heaps : correspondence.Heaps left right)
    (cells : correspondence.cells cell other) (key : String)
    (values : correspondence.Values value value') :
    correspondence.Heaps (left.store cell key value) (right.store other key value') := by
  let depth := max (left.size * left.size + 1) (right.size * right.size + 1)
  have stored : Option.Rel correspondence.Heaps (left.storeWithin depth [] cell key value)
      (right.storeWithin depth [] other key value') :=
    heaps.storeWithin .nil cells key values
  rw [Heap.storeWithin_eq_some_store cell key value (Nat.le_max_left _ _),
    Heap.storeWithin_eq_some_store other key value' (Nat.le_max_right _ _)] at stored
  cases stored with
  | some storedHeaps => exact storedHeaps

/-- Entering a struct leads to cells that correspond. -/
theorem enter (heaps : correspondence.Heaps left right)
    (cells : correspondence.cells cell other) (key : String) :
    correspondence.cells (left.enter cell key).1 (right.enter other key).1 ∧
      correspondence.Heaps (left.enter cell key).2 (right.enter other key).2 := by
  by_cases isStruct : ∃ inner, left.get? cell key = some (.struct inner)
  · obtain ⟨inner, isHere⟩ := isStruct
    obtain ⟨inner', isThere, inners⟩ := heaps.struct_of_get? cells isHere
    rw [Heap.enter_of_struct isHere, Heap.enter_of_struct isThere]
    exact ⟨inners, heaps⟩
  · have noStruct : ∀ inner, left.get? cell key ≠ some (.struct inner) :=
      fun inner isHere => isStruct ⟨inner, isHere⟩
    have noStructThere : ∀ inner, right.get? other key ≠ some (.struct inner) := by
      intro inner isThere
      have found := heaps.get? cells key
      rw [isThere] at found
      generalize left.get? cell key = here at found noStruct
      cases found with
      | some values =>
          cases values with
          | struct _ => exact noStruct _ rfl
    rw [Heap.enter_of_not_struct noStruct, Heap.enter_of_not_struct noStructThere]
    have empty : correspondence.Tables [] [] := .nil
    exact ⟨heaps.next, (heaps.alloc empty).insert cells key (.struct heaps.next)⟩

theorem storeAt (heaps : correspondence.Heaps left right)
    (cells : correspondence.cells cell other) (keys : List String)
    (values : correspondence.Values value value') :
    correspondence.Heaps (left.storeAt cell keys value) (right.storeAt other keys value') := by
  induction keys generalizing left right cell other with
  | nil => exact heaps
  | cons key rest inductionHypothesis =>
      cases rest with
      | nil => exact heaps.store cells key values
      | cons next others =>
          obtain ⟨inners, heapsInside⟩ := heaps.enter cells key
          exact inductionHypothesis heapsInside inners

theorem assign (heaps : correspondence.Heaps left right)
    (cells : correspondence.cells cell other) (target : Target)
    (values : correspondence.Values value value') :
    correspondence.Heaps (left.assign cell target value) (right.assign other target value') := by
  obtain ⟨roots, heapsInside⟩ := heaps.enter cells target.root
  exact heapsInside.storeAt roots target.keys.reverse values

theorem push (heaps : correspondence.Heaps left right)
    (cells : correspondence.cells cell other) (values : correspondence.Values value value') :
    correspondence.Heaps (left.write cell ((left.read cell).push value))
      (right.write other ((right.read other).push value')) :=
  heaps.write cells ((heaps.tables cells).push values)

theorem elements? (heaps : correspondence.Heaps left right)
    (values : correspondence.Values value value') :
    Option.Rel (List.Forall₂ correspondence.Values) (left.elements? value)
      (right.elements? value') := by
  cases values with
  | struct cells => exact .some (heaps.tables cells).values
  | _ => exact .none

end Heaps

end Correspondence

end Tabula
