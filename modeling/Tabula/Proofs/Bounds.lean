import Mathlib.Data.Finset.Card
import Mathlib.Data.Finset.Prod
import Mathlib.Data.List.Nodup
import Mathlib.Order.Monotone.Basic
import Tabula.Equality
import Tabula.Merge
import Tabula.Unfolding

/-!
# Bounds that are never used up

Unfolding a value, comparing two values and storing a struct over another nest as deeply as the heap
makes them, and each of them is given a bound that it takes from the size of the heap. These bounds
decide nothing: every deeper bound has the same result.

* The cells on one way down are distinct, so unfolding stops at a cut before its bound.
* Two structs whose comparison is still open need another open pair of structs below them. Once no
  pair is settled by one more level, no pair will ever be.
* No pair of structs is merged inside itself, so there are fewer nested merges than pairs.
-/

namespace Tabula

namespace Heap

variable {heap : Heap}

/-! ## Unfolding -/

/-- Distinct allocated cells are no more than the heap has. -/
theorem length_le_size {above : List Cell}
    (distinct : above.Nodup) (allocated : ∀ cell ∈ above, cell < heap.size) :
    above.length ≤ heap.size := by
  have inRange : above ⊆ List.range heap.size :=
    fun cell member => List.mem_range.mpr (allocated cell member)
  have bounded : above.length ≤ (List.range heap.size).length :=
    (distinct.subperm inRange).length_le
  rwa [List.length_range] at bounded

/-- Below distinct cells, one more level does not change what is unfolded. -/
theorem unfoldBelow_succ {depth : Nat} {above : List Cell} (value : Value)
    (distinct : above.Nodup) (allocated : ∀ cell ∈ above, cell < heap.size)
    (deep : heap.size + 2 ≤ depth + above.length) :
    heap.unfoldBelow (depth + 1) above value = heap.unfoldBelow depth above value := by
  induction depth generalizing above value with
  | zero =>
      have bounded : above.length ≤ heap.size := length_le_size distinct allocated
      omega
  | succ depth inductionHypothesis =>
      cases value with
      | struct cell =>
          rw [unfoldBelow, unfoldBelow]
          by_cases again : cell ∈ above
          · rw [if_pos again, if_pos again]
          · rw [if_neg again, if_neg again]
            congr 1
            apply List.map_congr_left
            intro entry member
            have present : cell < heap.size :=
              lt_size_of_mem_read (List.mem_map_of_mem member)
            have deeper : heap.size + 2 ≤ depth + (cell :: above).length := by
              rw [List.length_cons]
              omega
            have same :
                heap.unfoldBelow (depth + 1) (cell :: above) entry.2 =
                  heap.unfoldBelow depth (cell :: above) entry.2 :=
              inductionHypothesis entry.2 (List.nodup_cons.mpr ⟨again, distinct⟩)
                (List.forall_mem_cons.mpr ⟨present, allocated⟩) deeper
            exact congrArg (Prod.mk entry.1) same
      | _ => rfl

/-- A value is unfolded alike within every bound that exceeds the number of cells by two. -/
theorem unfold_eq_unfoldBelow {depth : Nat} (value : Value) (deep : heap.size + 2 ≤ depth) :
    heap.unfold value = heap.unfoldBelow depth [] value := by
  induction depth, deep using Nat.le_induction with
  | base => rfl
  | succ depth deep inductionHypothesis =>
      rw [inductionHypothesis]
      exact (unfoldBelow_succ value List.nodup_nil
        (fun cell member => absurd member List.not_mem_nil) deep).symm

/-! ## Equality -/

end Heap

namespace Table

/-- A comparison that answers more keeps the answers about tables. -/
private theorem entries_mono {compare deeper : Value → Value → Option Bool}
    (answersMore : ∀ x y answer, compare x y = some answer → deeper x y = some answer)
    {entries right : Table Value} {answer : Bool}
    (compared : equal?.entries compare right entries = some answer) :
    equal?.entries deeper right entries = some answer := by
  induction entries with
  | nil => exact compared
  | cons entry rest inductionHypothesis =>
      rw [equal?.entries] at compared ⊢
      split at compared
      · exact compared
      · rename_i other found
        cases first : compare entry.2 other with
        | none => simp only [first, reduceCtorEq] at compared
        | some same =>
            rw [first] at compared
            rw [answersMore _ _ same first]
            cases same with
            | true => exact inductionHypothesis compared
            | false => exact compared

private theorem equal?_mono {compare deeper : Value → Value → Option Bool}
    (answersMore : ∀ x y answer, compare x y = some answer → deeper x y = some answer)
    {left right : Table Value} {answer : Bool}
    (compared : equal? compare left right = some answer) :
    equal? deeper left right = some answer := by
  rw [equal?] at compared ⊢
  split
  · rename_i sameLength
    rw [if_pos sameLength] at compared
    exact entries_mono answersMore compared
  · rename_i differentLength
    rw [if_neg differentLength] at compared
    exact compared

end Table

namespace Heap

variable {heap : Heap}

/-- What is settled stays settled with one more level. -/
private theorem equalWithin_succ {depth : Nat} {left right : Value} {answer : Bool}
    (compared : heap.equalWithin depth left right = some answer) :
    heap.equalWithin (depth + 1) left right = some answer := by
  induction depth generalizing left right answer with
  | zero => exact nomatch compared
  | succ depth inductionHypothesis =>
      unfold equalWithin at compared ⊢
      split at compared
      case h_8 x y =>
        split
        · rename_i same
          rw [if_pos same] at compared
          exact compared
        · rename_i different
          rw [if_neg different] at compared
          exact Table.equal?_mono (fun x y answer => inductionHypothesis) compared
      all_goals exact compared

/-- One more level depends only on what the levels below it answer. -/
private theorem equalWithin_congr {depth other : Nat}
    (same : heap.equalWithin depth = heap.equalWithin other) :
    heap.equalWithin (depth + 1) = heap.equalWithin (other + 1) := by
  funext left right
  simp only [equalWithin, same]

/-- Only two different structs that both hold something may be left open by one level. -/
private theorem structs_of_undecided {depth : Nat} {left right : Value}
    (undecided : heap.equalWithin (depth + 1) left right = none) :
    ∃ x y, left = .struct x ∧ right = .struct y ∧ x < heap.size ∧ y < heap.size := by
  unfold equalWithin at undecided
  split at undecided
  case h_8 x y =>
    split at undecided
    · exact nomatch undecided
    · rw [Table.equal?] at undecided
      split at undecided
      · rename_i sameLength
        have filled : heap.read x ≠ [] := by
          intro empty
          rw [empty] at undecided
          exact nomatch undecided
        have otherFilled : heap.read y ≠ [] := by
          intro empty
          rw [empty, List.length_nil, List.length_eq_zero_iff] at sameLength
          exact filled sameLength
        have present : ∀ cell, heap.read cell ≠ [] → cell < heap.size := by
          intro cell holds
          exact Nat.lt_of_not_le fun beyond => holds (heap.read_of_size_le beyond)
        exact ⟨x, y, rfl, rfl, present x filled, present y otherFilled⟩
      · exact nomatch undecided
  all_goals exact nomatch undecided

/-- The pairs of structs that so many levels above the first one settle. -/
private def settled (heap : Heap) (depth : Nat) : Finset (Cell × Cell) :=
  (Finset.range heap.size ×ˢ Finset.range heap.size).filter fun pair =>
    (heap.equalWithin (depth + 1) (.struct pair.1) (.struct pair.2)).isSome

private theorem settled_mono (heap : Heap) : Monotone heap.settled := by
  refine monotone_nat_of_le_succ fun depth => ?_
  intro pair member
  rw [settled, Finset.mem_filter] at member ⊢
  obtain ⟨answer, compared⟩ := Option.isSome_iff_exists.mp member.2
  rw [equalWithin_succ compared]
  exact ⟨member.1, rfl⟩

private theorem card_settled_le (heap : Heap) (depth : Nat) :
    (heap.settled depth).card ≤ heap.size * heap.size := by
  calc
    (heap.settled depth).card
        ≤ (Finset.range heap.size ×ˢ Finset.range heap.size).card :=
          Finset.card_filter_le _ _
    _ = heap.size * heap.size := by rw [Finset.card_product, Finset.card_range]

/-- If one more level settles no pair, then it settles nothing at all. -/
private theorem equalWithin_eq_of_card_settled {depth : Nat}
    (sameCard : (heap.settled depth).card = (heap.settled (depth + 1)).card) :
    heap.equalWithin (depth + 1) = heap.equalWithin (depth + 2) := by
  have same : heap.settled depth = heap.settled (depth + 1) :=
    Finset.eq_of_subset_of_card_le (heap.settled_mono (Nat.le_succ depth)) sameCard.ge
  funext left right
  cases compared : heap.equalWithin (depth + 1) left right with
  | some answer => exact (equalWithin_succ compared).symm
  | none =>
      obtain ⟨x, y, rfl, rfl, presentX, presentY⟩ := structs_of_undecided compared
      have unsettled : (x, y) ∉ heap.settled (depth + 1) := by
        rw [← same, settled, Finset.mem_filter, compared]
        exact fun member => nomatch member.2
      rw [settled, Finset.mem_filter, not_and, Bool.not_eq_true, Option.isSome_eq_false_iff,
        Option.isNone_iff_eq_none] at unsettled
      have inRange : (x, y) ∈ Finset.range heap.size ×ˢ Finset.range heap.size :=
        Finset.mem_product.mpr ⟨Finset.mem_range.mpr presentX, Finset.mem_range.mpr presentY⟩
      exact (unsettled inRange).symm

/-- There are no more pairs to settle than pairs of cells. -/
private theorem equalWithin_eq_succ (heap : Heap) :
    heap.equalWithin (heap.size * heap.size + 1) =
      heap.equalWithin (heap.size * heap.size + 2) := by
  have stabilises :
      (heap.settled (heap.size * heap.size + 1)).card =
        (heap.settled (heap.size * heap.size)).card := by
    apply Nat.stabilises_of_monotone
      (fun _ _ deeper => Finset.card_le_card (heap.settled_mono deeper)) heap.card_settled_le
    · intro depth sameCard
      have same : heap.equalWithin (depth + 2) = heap.equalWithin (depth + 3) :=
        equalWithin_congr (equalWithin_eq_of_card_settled sameCard)
      simp only [settled, same]
    · exact Nat.le_succ _
  exact equalWithin_eq_of_card_settled stabilises.symm

/-- Two values compare alike within every bound that exceeds the number of pairs of cells. -/
theorem equal?_eq_equalWithin {depth : Nat} (left right : Value)
    (deep : heap.size * heap.size + 1 ≤ depth) :
    heap.equal? left right = heap.equalWithin depth left right := by
  have stable :
      heap.equalWithin (heap.size * heap.size + 1) = heap.equalWithin depth ∧
        heap.equalWithin depth = heap.equalWithin (depth + 1) := by
    induction depth, deep using Nat.le_induction with
    | base => exact ⟨rfl, heap.equalWithin_eq_succ⟩
    | succ depth _ inductionHypothesis =>
        exact ⟨inductionHypothesis.1.trans inductionHypothesis.2,
          equalWithin_congr inductionHypothesis.2⟩
  rw [equal?, ← heap.equalWithin_eq_succ, stable.1]

/-! ## Merging -/

/-- What ends within a bound ends alike with one more level. -/
private theorem mergeWithin_mono {depth deeper : Nat} {merging : List (Cell × Cell)}
    {destination : Cell} {entries : List (String × Value)} {merged : Heap}
    (endsDeeper : ∀ {heap merged : Heap} {cell : Cell} {key : String} {value : Value},
      heap.storeWithin depth merging cell key value = some merged →
      heap.storeWithin deeper merging cell key value = some merged)
    (folded : mergeWithin depth merging destination entries heap = some merged) :
    mergeWithin deeper merging destination entries heap = some merged := by
  induction entries generalizing heap with
  | nil => exact folded
  | cons entry rest inductionHypothesis =>
      rw [mergeWithin, Option.bind_eq_some_iff] at folded ⊢
      obtain ⟨next, first, remaining⟩ := folded
      exact ⟨next, endsDeeper first, inductionHypothesis remaining⟩

theorem storeWithin_succ {depth : Nat} {merging : List (Cell × Cell)} {merged : Heap}
    {cell : Cell} {key : String} {value : Value}
    (stored : heap.storeWithin depth merging cell key value = some merged) :
    heap.storeWithin (depth + 1) merging cell key value = some merged := by
  induction depth generalizing heap merging merged cell key value with
  | zero => exact nomatch stored
  | succ depth inductionHypothesis =>
      rcases heap.replaces_or_structs cell key value with
        replaces | ⟨destination, source, found, rfl⟩
      · rw [storeWithin_of_replaces depth merging replaces] at stored
        rw [storeWithin_of_replaces (depth + 1) merging replaces, stored]
      · rw [storeWithin_struct depth merging found] at stored
        rw [storeWithin_struct (depth + 1) merging found]
        split
        · rename_i same
          rwa [if_pos same] at stored
        · rename_i different
          rw [if_neg different] at stored
          split
          · rename_i inside
            rwa [if_pos inside] at stored
          · rename_i outside
            rw [if_neg outside] at stored
            exact mergeWithin_mono inductionHypothesis stored

/-- Distinct pairs of different allocated cells are fewer than there are pairs of cells. -/
private theorem length_lt_of_pairs {merging : List (Cell × Cell)} (distinct : merging.Nodup)
    (apart : ∀ pair ∈ merging, pair.1 ≠ pair.2 ∧ pair.1 < heap.size ∧ pair.2 < heap.size)
    (filled : 0 < heap.size) : merging.length < heap.size * heap.size := by
  have subset : merging.toFinset ⊆ (Finset.range heap.size).offDiag := by
    intro pair member
    obtain ⟨different, first, second⟩ := apart pair (List.mem_toFinset.mp member)
    exact Finset.mem_offDiag.mpr
      ⟨Finset.mem_range.mpr first, Finset.mem_range.mpr second, different⟩
  have bounded : merging.length ≤ heap.size * heap.size - heap.size := by
    calc
      merging.length = merging.toFinset.card := (List.toFinset_card_of_nodup distinct).symm
      _ ≤ (Finset.range heap.size).offDiag.card := Finset.card_le_card subset
      _ = heap.size * heap.size - heap.size := by
        rw [Finset.offDiag_card, Finset.card_range]
  have positive : 0 < heap.size * heap.size := Nat.mul_pos filled filled
  omega

/-- Merging ends if storing each entry ends. -/
private theorem mergeWithin_ends {depth : Nat} {merging : List (Cell × Cell)}
    {destination : Cell} {entries : List (String × Value)} {size : Nat}
    (ends : ∀ heap : Heap, heap.size = size → ∀ entry ∈ entries,
      ∃ merged, heap.storeWithin depth merging destination entry.1 entry.2 = some merged)
    (sameSize : heap.size = size) :
    ∃ merged, mergeWithin depth merging destination entries heap = some merged := by
  induction entries generalizing heap with
  | nil => exact ⟨heap, rfl⟩
  | cons entry rest inductionHypothesis =>
      obtain ⟨next, stored⟩ := ends heap sameSize entry List.mem_cons_self
      obtain ⟨merged, folded⟩ :=
        inductionHypothesis
          (fun heap same other member => ends heap same other (List.mem_cons_of_mem entry member))
          ((size_storeWithin stored).trans sameSize)
      refine ⟨merged, ?_⟩
      rw [mergeWithin, stored]
      exact folded

/-- Into a cell that is not allocated anything is stored without nesting. -/
private theorem storeWithin_beyond {depth : Nat} {merging : List (Cell × Cell)} {cell : Cell}
    {key : String} {value : Value} (beyond : heap.size ≤ cell) :
    heap.storeWithin (depth + 1) merging cell key value = some heap := by
  have missing : (heap.get? cell key).bind Value.cell? = none := by
    rw [get?, heap.read_of_size_le beyond]
    rfl
  rw [storeWithin_of_replaces depth merging (Or.inr missing), insert,
    heap.write_of_size_le _ beyond]

private theorem storeWithin_ends {depth : Nat} {merging : List (Cell × Cell)} {cell : Cell}
    {key : String} {value : Value} (distinct : merging.Nodup)
    (apart : ∀ pair ∈ merging, pair.1 ≠ pair.2 ∧ pair.1 < heap.size ∧ pair.2 < heap.size)
    (deep : heap.size * heap.size + 1 ≤ depth + merging.length) :
    ∃ merged, heap.storeWithin depth merging cell key value = some merged := by
  induction depth generalizing heap merging cell key value with
  | zero =>
      cases merging with
      | nil =>
          rw [List.length_nil] at deep
          omega
      | cons pair rest =>
          have filled : 0 < heap.size :=
            Nat.zero_lt_of_lt (apart pair List.mem_cons_self).2.1
          have fewer : (pair :: rest).length < heap.size * heap.size :=
            length_lt_of_pairs distinct apart filled
          omega
  | succ depth inductionHypothesis =>
      rcases heap.replaces_or_structs cell key value with
        replaces | ⟨destination, source, found, rfl⟩
      · exact ⟨_, storeWithin_of_replaces depth merging replaces⟩
      · rw [storeWithin_struct depth merging found]
        split
        · exact ⟨_, rfl⟩
        · rename_i different
          split
          · exact ⟨heap, rfl⟩
          · rename_i outside
            have filled : 0 < heap.size := Nat.zero_lt_of_lt (lt_size_of_get? found)
            have fewer : merging.length < heap.size * heap.size :=
              length_lt_of_pairs distinct apart filled
            apply mergeWithin_ends _ rfl
            intro between sameSize entry member
            have presentSource : source < heap.size :=
              lt_size_of_mem_read (List.mem_map_of_mem member)
            by_cases presentDestination : destination < heap.size
            · rw [← sameSize] at presentSource presentDestination apart deep
              apply inductionHypothesis (List.nodup_cons.mpr ⟨outside, distinct⟩)
              · exact List.forall_mem_cons.mpr
                  ⟨⟨different, presentDestination, presentSource⟩, apart⟩
              · rw [List.length_cons]
                omega
            · obtain ⟨level, isLevel⟩ : ∃ level, depth = level + 1 :=
                Nat.exists_eq_succ_of_ne_zero (by omega)
              rw [isLevel]
              have beyond : between.size ≤ destination :=
                sameSize ▸ Nat.le_of_not_lt presentDestination
              exact ⟨between, storeWithin_beyond beyond⟩

/-- A value is stored alike within every bound that exceeds the number of pairs of cells. -/
theorem storeWithin_eq_some_store {depth : Nat} (cell : Cell) (key : String) (value : Value)
    (deep : heap.size * heap.size + 1 ≤ depth) :
    heap.storeWithin depth [] cell key value = some (heap.store cell key value) := by
  induction depth, deep using Nat.le_induction with
  | base =>
      obtain ⟨merged, stored⟩ :
          ∃ merged,
            heap.storeWithin (heap.size * heap.size + 1) [] cell key value = some merged :=
        storeWithin_ends List.nodup_nil (fun pair member => absurd member List.not_mem_nil)
          (Nat.le_refl _)
      rw [store, stored, Option.getD_some]
  | succ depth _ inductionHypothesis => exact storeWithin_succ inductionHypothesis

/-- What ends within some bound is what is stored. -/
theorem store_of_storeWithin {depth : Nat} {cell : Cell} {key : String} {value : Value}
    {merged : Heap} (stored : heap.storeWithin depth [] cell key value = some merged) :
    heap.store cell key value = merged := by
  have deeper : ∀ more, heap.storeWithin (depth + more) [] cell key value = some merged := by
    intro more
    induction more with
    | zero => exact stored
    | succ more inductionHypothesis => exact storeWithin_succ inductionHypothesis
  have within :
      heap.storeWithin (depth + (heap.size * heap.size + 1)) [] cell key value =
        some (heap.store cell key value) :=
    storeWithin_eq_some_store cell key value (Nat.le_add_left _ depth)
  rw [deeper] at within
  exact (Option.some.inj within).symm

/-- Storing a struct over a different one is merging the entries of the one into the other. -/
theorem exists_mergeWithin_eq_store {cell destination source : Cell} {key : String}
    (found : heap.get? cell key = some (.struct destination)) (different : destination ≠ source) :
    ∃ depth, mergeWithin depth [(destination, source)] destination (heap.read source) heap =
      some (heap.store cell key (.struct source)) := by
  refine ⟨heap.size * heap.size, ?_⟩
  rw [← storeWithin_eq_some_store cell key (.struct source) (Nat.le_refl _),
    storeWithin_struct _ _ found, if_neg different, if_neg List.not_mem_nil]

end Heap

end Tabula
