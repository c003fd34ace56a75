import Mathlib
import Tabula.Decimal.Shortest

/-!
# Whole numbers are written with their decimal digits

A double has 53 bits for its significand, so a whole number below `2 ^ 53` is held exactly, and its
significand is the number shifted up until its leading bit is in place. The reals that round to it
lie less than one unit around it. So on a grid of multiples of a power of ten the only point that
can be accepted is the number itself, and the digits that are found are the number without some of
the zeros at its end. They are written back when the text is made.
-/

namespace Tabula

open Float.Model Float.Model.UnpackedFloat

namespace Double

/-! ## Rounding of numbers that need no rounding -/

/-- Shifting out zeros loses nothing. -/
theorem shiftRight_of_multiple (mantissa places : Nat) :
    (⟨mantissa * 2 ^ places, false, false⟩ : ExtendedMantissa) >>> places =
      ⟨mantissa, false, false⟩ := by
  induction places generalizing mantissa with
  | zero =>
      rw [Nat.pow_zero, Nat.mul_one]
      rfl
  | succ places inductionHypothesis =>
      have twice : mantissa * 2 ^ (places + 1) = mantissa * 2 * 2 ^ places := by
        rw [Nat.pow_succ', Nat.mul_assoc]
      change ((⟨mantissa * 2 ^ (places + 1), false, false⟩ : ExtendedMantissa) >>>
        places).shiftRightOne = _
      rw [twice, inductionHypothesis (mantissa * 2)]
      simp [ExtendedMantissa.shiftRightOne]

theorem log2_mul_two_pow {number : Nat} (positive : 0 < number) (places : Nat) :
    (number * 2 ^ places).log2 = number.log2 + places := by
  have notZero : number * 2 ^ places ≠ 0 :=
    Nat.mul_ne_zero (Nat.ne_of_gt positive) (Nat.ne_of_gt (Nat.two_pow_pos places))
  rw [Nat.log2_eq_iff notZero, Nat.add_right_comm, Nat.pow_add, Nat.pow_add]
  exact ⟨Nat.mul_le_mul_right _ (Nat.log2_self_le (Nat.ne_of_gt positive)),
    Nat.mul_lt_mul_of_pos_right Nat.lt_log2_self (Nat.two_pow_pos places)⟩

section Full

variable {mantissa : Nat} (positive : 0 < mantissa) (full : mantissa.log2 = 52)
  {exponent : Int} (notSubnormal : -1074 ≤ exponent)

include positive full notSubnormal

theorem shiftToTargetExponent_of_multiple (places : Nat) :
    shiftToTargetExponent Format.binary64 (mantissa * 2 ^ places) (exponent - places) .exact =
      (⟨mantissa, false, false⟩, exponent) := by
  have target : Format.binary64.targetExponent
      (totalExponent (mantissa * 2 ^ places) (exponent - places)) = exponent := by
    simp only [Format.targetExponent, totalExponent, log2_mul_two_pow positive, full,
      Format.mantissaBits, Format.minExponent]
    omega
  have amount : (exponent - (exponent - places)).toNat = places := by omega
  have sameExponent : exponent - places + (places : Int) = exponent := by omega
  rw [shiftToTargetExponent, shiftToExponent, target, amount, sameExponent]
  exact congrArg (·, exponent) (shiftRight_of_multiple mantissa places)

/-- A significand of 53 bits, shifted up or not, is rounded to itself. -/
theorem roundWithAccuracy_of_multiple (places : Nat) :
    roundWithAccuracy Format.binary64 .positive (mantissa * 2 ^ places) (exponent - places)
        .exact =
      .finite .positive mantissa exponent positive := by
  have once := shiftToTargetExponent_of_multiple positive full notSubnormal places
  have again := shiftToTargetExponent_of_multiple positive full notSubnormal 0
  rw [Nat.pow_zero, Nat.mul_one, Int.natCast_zero, Int.sub_zero] at again
  have rounded : (ExtendedMantissa.mk mantissa false false).roundedMantissa = mantissa := rfl
  rw [roundWithAccuracy, once]
  dsimp only
  rw [rounded, again]
  exact dif_neg (Nat.ne_of_gt positive)

/-! ## Bits -/

variable (notInfinite : exponent ≤ 0)

include notInfinite

/-- The bits hold the biased exponent and the significand without its leading bit. -/
theorem pack_of_full :
    UnpackedFloat.pack Format.binary64 (.finite .positive mantissa exponent positive) =
      packComponents Format.binary64 .positive (BitVec.ofNat 11 (exponent + 1075).toNat)
        (BitVec.ofNat 52 mantissa) := by
  have biased : (exponent + Format.binary64.exponentBias +
      Format.binary64.mantissaBitsWithoutImplicit).toNat = (exponent + 1075).toNat := by
    simp only [Format.exponentBias]
    omega
  have fits : ¬ 2 ^ Format.binary64.exponentBits ≤ (exponent + 1075).toNat + 1 := by
    change ¬ 2 ^ 11 ≤ _
    omega
  have normal : mantissa.log2 + 1 = Format.binary64.mantissaBits := by
    rw [full]
    rfl
  simp only [UnpackedFloat.pack]
  rw [biased, if_neg fits, if_pos normal]

end Full

theorem toNat_packComponents (biased : BitVec 11) (fraction : BitVec 52) :
    (packComponents Format.binary64 .positive biased fraction).toNat =
      biased.toNat * 2 ^ 52 + fraction.toNat := by
  have joined : ((Sign.positive.toBitVec ++ biased : BitVec 12) ++ fraction).toNat =
      biased.toNat <<< 52 ||| fraction.toNat := by
    rw [BitVec.toNat_append, BitVec.toNat_append]
    simp [Sign.toBitVec]
  rw [← Nat.shiftLeft_eq, Nat.shiftLeft_add_eq_or_of_lt fraction.isLt]
  exact joined

theorem unpackSign_packComponents (biased : BitVec 11) (fraction : BitVec 52) :
    unpackSign (packComponents Format.binary64 .positive biased fraction) = 0#1 := by
  have noBit : (packComponents Format.binary64 .positive biased fraction).toNat / 2 ^ 63 = 0 := by
    rw [toNat_packComponents]
    omega
  refine BitVec.eq_of_toNat_eq ?_
  rw [unpackSign, BitVec.toNat_cast, BitVec.extractLsb_toNat, Nat.shiftRight_eq_div_pow]
  change _ / 2 ^ 63 % 2 ^ 1 = 0
  rw [noBit, Nat.zero_mod]

theorem unpack_packComponents {biased : BitVec 11} (fraction : BitVec 52)
    (notSubnormal : biased ≠ 0#11) (notInfinite : biased ≠ -1#11) :
    UnpackedFloat.unpack Format.binary64
        (packComponents Format.binary64 .positive biased fraction) =
      .finite .positive (2 ^ 52 + fraction.toNat) (biased.toNat - 1075) (by omega) := by
  have whole : (1#1 ++ fraction).toNat = 2 ^ 52 + fraction.toNat := by
    rw [BitVec.toNat_append, ← Nat.shiftLeft_add_eq_or_of_lt fraction.isLt]
    rfl
  simp only [UnpackedFloat.unpack, unpackExponent_packComponents, unpackMantissa_packComponents,
    unpackSign_packComponents, whole]
  rw [if_neg notInfinite, if_neg notSubnormal]
  rfl

theorem unpack_pack_of_full {mantissa : Nat} (positive : 0 < mantissa)
    (full : mantissa.log2 = 52) {exponent : Int} (notSubnormal : -1074 ≤ exponent)
    (notInfinite : exponent ≤ 0) :
    (pack (.finite .positive mantissa exponent positive)).unpack =
      .finite .positive mantissa exponent positive := by
  obtain ⟨lower, upper⟩ := (Nat.log2_eq_iff (Nat.ne_of_gt positive)).mp full
  have biased : (BitVec.ofNat 11 (exponent + 1075).toNat).toNat = (exponent + 1075).toNat := by
    rw [BitVec.toNat_ofNat, Nat.mod_eq_of_lt (by omega)]
  have notZero : BitVec.ofNat 11 (exponent + 1075).toNat ≠ 0#11 := by
    rw [Ne, ← BitVec.toNat_inj, biased, BitVec.toNat_zero]
    omega
  have notOnes : BitVec.ofNat 11 (exponent + 1075).toNat ≠ -1#11 := by
    rw [Ne, ← BitVec.toNat_inj, biased]
    change ¬ _ = 2047
    omega
  have sameMantissa : 2 ^ 52 + (BitVec.ofNat 52 mantissa).toNat = mantissa := by
    rw [BitVec.toNat_ofNat]
    omega
  have sameExponent :
      ((BitVec.ofNat 11 (exponent + 1075).toNat).toNat : Int) - 1075 = exponent := by
    rw [biased]
    omega
  have unpacked := unpack_packComponents (BitVec.ofNat 52 mantissa) notZero notOnes
  simp only [sameMantissa, sameExponent] at unpacked
  rw [← pack_of_full positive full notSubnormal notInfinite] at unpacked
  exact unpacked

/-! ## The double of a whole number -/

/-- The significand of a whole number, shifted up until it has 53 bits. -/
def significand (number : Nat) : Nat := number * 2 ^ (52 - number.log2)

variable {number : Nat}

theorem significand_pos (positive : 0 < number) : 0 < significand number :=
  Nat.mul_pos positive (Nat.two_pow_pos _)

variable (positive : 0 < number) (exact : number < 2 ^ 53)

include positive exact

theorem log2_le : number.log2 ≤ 52 :=
  Nat.le_of_lt_succ ((Nat.log2_lt (Nat.ne_of_gt positive)).mpr exact)

theorem log2_significand : (significand number).log2 = 52 := by
  have small := log2_le positive exact
  rw [significand, log2_mul_two_pow positive]
  omega

theorem significand_bounds : 2 ^ 52 ≤ significand number ∧ significand number < 2 ^ 53 :=
  (Nat.log2_eq_iff (Nat.ne_of_gt (significand_pos positive))).mp
    (log2_significand positive exact)

theorem ofNat_of_exact :
    UnpackedFloat.ofNat Format.binary64 number =
      .finite .positive (significand number) (number.log2 - 52) (significand_pos positive) := by
  have small := log2_le positive exact
  have target : Format.binary64.targetExponent (totalExponent number 0) = number.log2 - 52 := by
    simp only [Format.targetExponent, totalExponent, Format.mantissaBits, Format.minExponent]
    omega
  have amount : (0 - ((number.log2 : Int) - 52)).toNat = 52 - number.log2 := by omega
  have sameExponent : (0 : Int) - ((52 - number.log2 : Nat) : Int) = number.log2 - 52 := by omega
  have greater : compare (number : Int) 0 = .gt := by
    rw [compare_gt_iff_gt]
    omega
  have rounded := roundWithAccuracy_of_multiple (significand_pos positive)
    (log2_significand positive exact) (by omega : -1074 ≤ (number.log2 : Int) - 52) 0
  rw [Nat.pow_zero, Nat.mul_one, Int.natCast_zero, Int.sub_zero] at rounded
  rw [UnpackedFloat.ofNat, UnpackedFloat.ofInt]
  unfold UnpackedFloat.normalize
  rw [greater]
  dsimp only
  rw [UnpackedFloat.round, Int.toNat_natCast, target, decreaseExponent, amount]
  dsimp only
  rw [sameExponent, Nat.shiftLeft_eq]
  exact rounded

/-- The double of a whole number is exact: neither the conversion nor the multiplication with
`10 ^ 0` rounds. -/
theorem toModel_ofNat :
    (Float.ofNat number).toModel =
      pack (.finite .positive (significand number) (number.log2 - 52)
        (significand_pos positive)) := by
  have small := log2_le positive exact
  have full := log2_significand positive exact
  have sameNumber : number.toUInt64.toNat = number := by
    rw [Nat.toUInt64, UInt64.toNat_ofNat']
    omega
  have converted : (number.toUInt64.toFloat).toModel =
      pack (.finite .positive (significand number) (number.log2 - 52)
        (significand_pos positive)) := by
    change pack (UnpackedFloat.ofNat Format.binary64 number.toUInt64.toNat) = _
    rw [sameNumber, ofNat_of_exact positive exact]
  have product : Float.ofNat number =
      number.toUInt64.toFloat * Float.exactlyRepresentablePowersOfTen[0] := by
    change Float.ofScientific number false 0 = _
    rw [Float.ofScientific, dif_pos ⟨exact, Nat.zero_le 22⟩]
    rfl
  have one : (Float.exactlyRepresentablePowersOfTen[0]).toModel.unpack =
      .finite .positive (2 ^ 52) (-52) (by decide) := rfl
  have rounded := roundWithAccuracy_of_multiple (significand_pos positive) full
    (by omega : -1074 ≤ (number.log2 : Int) - 52) 52
  rw [product]
  change pack (UnpackedFloat.mul Format.binary64 (number.toUInt64.toFloat).toModel.unpack
    (Float.exactlyRepresentablePowersOfTen[0]).toModel.unpack) = _
  rw [converted, unpack_pack_of_full (significand_pos positive) full (by omega) (by omega), one,
    UnpackedFloat.mul]
  exact congrArg pack rounded

theorem unpack_toModel_ofNat :
    (Float.ofNat number).toModel.unpack =
      .finite .positive (significand number) (number.log2 - 52) (significand_pos positive) := by
  have small := log2_le positive exact
  rw [toModel_ofNat positive exact]
  exact unpack_pack_of_full (significand_pos positive) (log2_significand positive exact)
    (by omega) (by omega)

theorem toBits_ofNat :
    (Float.ofNat number).toBits.toNat =
      (number.log2 + 1023) * 2 ^ 52 + (significand number - 2 ^ 52) := by
  have small := log2_le positive exact
  obtain ⟨lower, upper⟩ := significand_bounds positive exact
  have biased : (((number.log2 : Int) - 52) + 1075).toNat = number.log2 + 1023 := by omega
  have fraction : significand number % 2 ^ 52 = significand number - 2 ^ 52 := by omega
  rw [Float.toBits, toModel_ofNat positive exact]
  change (UnpackedFloat.pack Format.binary64 _).toNat = _
  rw [pack_of_full (significand_pos positive) (log2_significand positive exact) (by omega)
    (by omega), toNat_packComponents, BitVec.toNat_ofNat, BitVec.toNat_ofNat, fraction, biased,
    Nat.mod_eq_of_lt (by omega)]

end Double

theorem twoTo_eq (exponent : Nat) : twoTo exponent = 2 ^ exponent := by
  rw [twoTo, Nat.one_shiftLeft]

theorem tenTo_eq (exponent : Nat) : tenTo exponent = 10 ^ exponent := by
  induction exponent with
  | zero => rfl
  | succ exponent inductionHypothesis => rw [tenTo, inductionHypothesis, Nat.pow_succ']

/-- A positive whole number below `2 ^ 53`, as its double holds it. -/
def Binary.whole (number : Nat) : Binary := ⟨Double.significand number, number.log2 - 52⟩

section Reading

variable {number : Nat} (positive : 0 < number) (exact : number < 2 ^ 53)

include positive exact

theorem signBit_ofNat : signBit (Float.ofNat number) = false := by
  have small := Double.log2_le positive exact
  obtain ⟨lower, upper⟩ := Double.significand_bounds positive exact
  rw [signBit, Double.toBits_ofNat positive exact, twoTo_eq, decide_eq_false_iff_not]
  omega

theorem ofFloat_ofNat : Binary.ofFloat (Float.ofNat number) = Binary.whole number := by
  have small := Double.log2_le positive exact
  obtain ⟨lower, upper⟩ := Double.significand_bounds positive exact
  have magnitude :
      ((number.log2 + 1023) * 2 ^ 52 + (Double.significand number - 2 ^ 52)) % 2 ^ 63 =
        (number.log2 + 1023) * 2 ^ 52 + (Double.significand number - 2 ^ 52) := by omega
  have biased :
      ((number.log2 + 1023) * 2 ^ 52 + (Double.significand number - 2 ^ 52)) / 2 ^ 52 =
        number.log2 + 1023 := by omega
  have fraction :
      ((number.log2 + 1023) * 2 ^ 52 + (Double.significand number - 2 ^ 52)) % 2 ^ 52 =
        Double.significand number - 2 ^ 52 := by omega
  simp only [Binary.ofFloat, twoTo_eq]
  rw [Double.toBits_ofNat positive exact, magnitude, biased, fraction,
    if_neg (Nat.succ_ne_zero _), Binary.whole, Binary.mk.injEq]
  exact ⟨by omega, by omega⟩

theorem numberText_eq_positional :
    numberText (Float.ofNat number) = (Binary.whole number).shortest.positional := by
  have unpacked := Double.unpack_toModel_ofNat positive exact
  have notNaN : (Float.ofNat number).isNaN = false := by
    rw [Float.isNaN, Float.Model.isNaN, unpacked]
    rfl
  have notInfinite : (Float.ofNat number).isInf = false := by
    rw [Float.isInf, Float.Model.isInf, unpacked]
    rfl
  have notZero : (Float.ofNat number == 0.0) = false := by
    have zero : (0.0 : Float).toModel.unpack = .zero .positive := rfl
    change UnpackedFloat.beq (Float.ofNat number).toModel.unpack (0.0 : Float).toModel.unpack =
      false
    rw [unpacked, zero]
    rfl
  simp only [numberText, notNaN, notInfinite, notZero, signBit_ofNat positive exact,
    ofFloat_ofNat positive exact, Bool.false_eq_true, if_false, String.empty_append]

end Reading

/-! ## Grids around a whole number -/

/-- Around a whole number all is measured in a unit that the interval does not reach. -/
structure Grid.Whole (grid : Grid) (number place unit : Nat) : Prop where
  wide : 4 ≤ unit
  value : grid.value = unit * number
  step : grid.step = unit * 10 ^ place
  low : unit * number ≤ grid.low + 2
  inside : grid.low < unit * number
  high : grid.high = unit * number + 2

theorem around_whole {number : Nat} (positive : 0 < number) (exact : number < 2 ^ 53)
    (place : Nat) :
    (Grid.around (Binary.whole number) place).Whole number place
      (4 * 2 ^ (52 - number.log2)) := by
  have small := Double.log2_le positive exact
  have noScale : ((number.log2 : Int) - 52).toNat = 0 := by omega
  have noPlaces : (-(place : Int)).toNat = 0 := by omega
  have places : (-((number.log2 : Int) - 52)).toNat = 52 - number.log2 := by omega
  have wide : 4 ≤ 4 * 2 ^ (52 - number.log2) :=
    Nat.le_mul_of_pos_right 4 (Nat.two_pow_pos _)
  have atLeastUnit : 4 ≤ 4 * 2 ^ (52 - number.log2) * number :=
    Nat.le_trans wide (Nat.le_mul_of_pos_right _ positive)
  have value : 4 * Double.significand number = 4 * 2 ^ (52 - number.log2) * number := by
    rw [Double.significand]
    ring
  simp only [Grid.around, Binary.whole, noScale, noPlaces, places, Int.toNat_natCast, twoTo_eq,
    tenTo_eq, Nat.pow_zero, Nat.mul_one, value]
  refine ⟨wide, rfl, (Nat.mul_assoc _ _ _).symm, ?_, ?_, rfl⟩
  · dsimp only
    split <;> omega
  · dsimp only
    split <;> omega

namespace Grid.Whole

variable {grid : Grid} {number place unit : Nat}

theorem accepts_iff (whole : grid.Whole number place unit) (digits : Nat) :
    grid.accepts digits = true ↔ digits * 10 ^ place = number := by
  obtain ⟨wide, _, step, low, inside, high⟩ := whole
  have point : digits * grid.step = unit * (digits * 10 ^ place) := by
    rw [step]
    ring
  constructor
  · intro accepted
    have bounds : grid.low ≤ digits * grid.step ∧ digits * grid.step ≤ grid.high := by
      rw [accepts] at accepted
      split at accepted
      · simpa using accepted
      · simp only [Bool.and_eq_true, decide_eq_true_eq] at accepted
        exact ⟨Nat.le_of_lt accepted.1, Nat.le_of_lt accepted.2⟩
    rw [point] at bounds
    -- a neighbour of the number is a unit away, and the interval reaches half as far
    refine Nat.le_antisymm (Nat.le_of_not_lt fun above => ?_) (Nat.le_of_not_lt fun below => ?_)
    · have apart := Nat.mul_le_mul_left unit above
      rw [Nat.succ_eq_add_one, Nat.mul_add] at apart
      omega
    · have apart := Nat.mul_le_mul_left unit below
      rw [Nat.succ_eq_add_one, Nat.mul_add] at apart
      omega
  · intro same
    rw [accepts, point, same]
    split <;> simp only [Bool.and_eq_true, decide_eq_true_eq] <;> omega

theorem nearest?_eq (whole : grid.Whole number place unit) :
    grid.nearest? = if 10 ^ place ∣ number then some (number / 10 ^ place) else none := by
  have unitPositive : 0 < unit := Nat.lt_of_lt_of_le (by decide) whole.wide
  have below : grid.value / grid.step = number / 10 ^ place := by
    rw [whole.value, whole.step, Nat.mul_div_mul_left _ _ unitPositive]
  have above : grid.accepts (number / 10 ^ place + 1) = false := by
    rw [← Bool.not_eq_true, whole.accepts_iff]
    exact Nat.ne_of_gt
      (Nat.lt_mul_of_div_lt (Nat.lt_succ_self (number / 10 ^ place)) (by positivity))
  rw [nearest?, below, above]
  by_cases divides : 10 ^ place ∣ number
  · rw [if_pos divides, (whole.accepts_iff _).mpr (Nat.div_mul_cancel divides)]
  · have noPoint : grid.accepts (number / 10 ^ place) = false := by
      rw [← Bool.not_eq_true, whole.accepts_iff]
      exact fun same => divides (Dvd.intro_left _ same)
    rw [if_neg divides, noPoint]

end Grid.Whole

/-! ## The digits that are found -/

/-- The first index that gives something is not beyond one that does. -/
theorem findSome?_range_of_some {α : Type} (find : Nat → Option α) {count index : Nat} {item : α}
    (within : index < count) (found : find index = some item) :
    ∃ first ≤ index, ∃ result, find first = some result ∧
      (List.range count).findSome? find = some result := by
  have member : index ∈ List.range count := List.mem_range.mpr within
  have isSome : ((List.range count).findSome? find).isSome := by
    rw [List.findSome?_isSome_iff]
    exact ⟨index, member, by rw [found]; rfl⟩
  obtain ⟨result, foundFirst⟩ := Option.isSome_iff_exists.mp isSome
  obtain ⟨earlier, first, later, split, here, missing⟩ := List.findSome?_eq_some_iff.mp foundFirst
  refine ⟨first, Nat.le_of_not_lt fun beyond => ?_, result, here, foundFirst⟩
  have increasing : List.Pairwise (· < ·) (earlier ++ first :: later) :=
    split ▸ List.pairwise_lt_range
  rw [split, List.mem_append] at member
  rcases member with isEarlier | notEarlier
  · exact nomatch (missing index isEarlier).symm.trans found
  · rcases List.mem_cons.mp notEarlier with rfl | isLater
    · exact Nat.lt_irrefl _ beyond
    · have after := List.rel_of_pairwise_cons (List.pairwise_append.mp increasing).2.1 isLater
      exact Nat.lt_asymm beyond after

theorem toDigits_mul_ten_pow {digits : Nat} (positive : 0 < digits) (zeros : Nat) :
    Nat.toDigits 10 (digits * 10 ^ zeros) = Nat.toDigits 10 digits ++ List.replicate zeros '0' := by
  induction zeros with
  | zero => rw [Nat.pow_zero, Nat.mul_one, List.replicate_zero, List.append_nil]
  | succ zeros inductionHypothesis =>
      have shifted : digits * 10 ^ (zeros + 1) = digits * 10 ^ zeros * 10 := by
        rw [Nat.pow_succ, Nat.mul_assoc]
      have notZero : 0 < digits * 10 ^ zeros := by positivity
      have last : digits * 10 ^ zeros * 10 % 10 = 0 := Nat.mul_mod_left _ 10
      rw [shifted, Nat.toDigits_of_base_le (by decide) (by omega), last,
        Nat.mul_div_cancel _ (by decide), inductionHypothesis, List.replicate_succ',
        List.append_assoc]
      rfl

section Found

variable {number : Nat} (positive : 0 < number) (exact : number < 2 ^ 53)

include positive exact

theorem leadingPlace_whole :
    ∃ leading : Nat, leading ≤ 16 ∧ (Binary.whole number).leadingPlace = leading := by
  have small := Double.log2_le positive exact
  have sameLog : (Binary.whole number).log2 = number.log2 := by
    rw [Binary.log2, Binary.whole]
    dsimp only
    rw [Double.log2_significand positive exact]
    omega
  have estimate : Int.fdiv ((number.log2 : Int) * 30103) 100000 =
      (number.log2 * 30103 / 100000 : Nat) := by
    rw [Int.fdiv_eq_ediv_of_nonneg _ (by decide)]
    push_cast
    rfl
  rw [Binary.leadingPlace, sameLog, estimate]
  split
  · exact ⟨number.log2 * 30103 / 100000 + 1, by omega, by push_cast; rfl⟩
  · exact ⟨number.log2 * 30103 / 100000, by omega, rfl⟩

/-- The digits that are found are the number without some of the zeros at its end. -/
theorem shortest_whole :
    ∃ place : Nat, 10 ^ place ∣ number ∧
      (Binary.whole number).shortest = ⟨number / 10 ^ place, place⟩ := by
  obtain ⟨leading, small, isLeading⟩ := leadingPlace_whole positive exact
  have onGrid : ∀ further ≤ leading,
      (Grid.around (Binary.whole number) ((leading : Int) - further)).nearest? =
        if 10 ^ (leading - further) ∣ number then some (number / 10 ^ (leading - further))
        else none := by
    intro further before
    have place : (leading : Int) - further = (leading - further : Nat) := by omega
    rw [place]
    exact (around_whole positive exact _).nearest?_eq
  have atUnits : (Grid.around (Binary.whole number) ((leading : Int) - leading)).nearest? =
      some number := by
    rw [onGrid leading (Nat.le_refl _), Nat.sub_self, Nat.pow_zero, Nat.div_one,
      if_pos (Nat.one_dvd number)]
  -- the units are reached at the latest, so no place behind the point is tried
  obtain ⟨further, before, decimal, found, foundFirst⟩ := findSome?_range_of_some
    (fun further : Nat =>
      (Grid.around (Binary.whole number) ((leading : Int) - further)).nearest?.map
        fun digits => Decimal.mk digits ((leading : Int) - further))
    (Nat.lt_succ_of_le small) (by rw [atUnits]; rfl)
  have place : (leading : Int) - further = (leading - further : Nat) := by omega
  rw [onGrid further before] at found
  by_cases divides : 10 ^ (leading - further) ∣ number
  · rw [if_pos divides, place] at found
    cases found
    refine ⟨leading - further, divides, ?_⟩
    rw [Binary.shortest, isLeading]
    dsimp only
    rw [foundFirst]
    rfl
  · rw [if_neg divides] at found
    exact nomatch found

end Found

/-- A whole number that a double holds exactly is written with its decimal digits. -/
theorem numberText_ofNat {number : Nat} (exact : number < 2 ^ 53) :
    numberText (Float.ofNat number) = Nat.repr number := by
  rcases Nat.eq_zero_or_pos number with rfl | positive
  · rfl
  obtain ⟨place, divides, shortest⟩ := shortest_whole positive exact
  have restored : number / 10 ^ place * 10 ^ place = number := Nat.div_mul_cancel divides
  have digitsPositive : 0 < number / 10 ^ place :=
    Nat.div_pos (Nat.le_of_dvd positive divides) (by positivity)
  rw [numberText_eq_positional positive exact, shortest, Nat.repr_eq_ofList_toDigits]
  change String.ofList (Nat.toDigits 10 _ ++ List.replicate place '0') = _
  rw [← toDigits_mul_ten_pow digitsPositive, restored]

end Tabula
