import CompactFont.Proofs.Number.Whole

/-! Integers as numbers. An integer of at most 53 bits is held exactly: it is the significand of a normal number but for
zeros that are shifted in, so that no operation on the way has anything to round. -/

namespace CompactFont.Number

open Float.Model Float.Model.UnpackedFloat

/-! ### Reading the parts -/

def isNegative : Sign → Bool
  | .negative => true
  | .positive => false

/-- The parts of a number of the arithmetic model. -/
def Parts.ofUnpacked : UnpackedFloat → Parts
  | .notANumber => .nan
  | .infinity sign => .infinite (isNegative sign)
  | .zero sign => .finite (isNegative sign) 0 (-1074)
  | .finite sign significand exponent _ => .finite (isNegative sign) significand exponent

theorem testBit_eq_isNegative (bits : BitVec 64) :
    bits.toNat.testBit 63 = isNegative (Sign.ofBitVec (@unpackSign Format.binary64 bits)) := by
  let sign : BitVec 1 := @unpackSign Format.binary64 bits
  have bit : sign.toNat = bits.toNat >>> 63 % 2 := rfl
  rw [Nat.testBit_eq_decide_div_mod_eq, ← Nat.shiftRight_eq_div_pow, ← bit]
  by_cases clear : sign = 0#1
  · have zero : sign.toNat = 0 := congrArg BitVec.toNat clear
    have positive : Sign.ofBitVec sign = .positive := if_pos clear
    rw [positive, zero]
    rfl
  · have one : sign.toNat = 1 := by
      have other : sign.toNat ≠ 0 := fun zero => clear (BitVec.toNat_inj.1 zero)
      have bound := sign.isLt
      omega
    have negative : Sign.ofBitVec sign = .negative := if_neg clear
    rw [negative, one]
    rfl

theorem leading_append (fraction : BitVec 52) : (1#1 ++ fraction).toNat = leadingBit + fraction.toNat := by
  rw [BitVec.toNat_append, ← Nat.shiftLeft_add_eq_or_of_lt fraction.isLt]
  rfl

/-- The parts that are read from the bits are those that the arithmetic works on. -/
theorem parts_eq_ofUnpacked (x : Float) : parts x = .ofUnpacked x.toModel.unpack := by
  let exponent : BitVec 11 := @unpackExponent Format.binary64 x.toBits.toBitVec
  let fraction : BitVec 52 := @unpackMantissa Format.binary64 x.toBits.toBitVec
  let sign : Sign := Sign.ofBitVec (@unpackSign Format.binary64 x.toBits.toBitVec)
  have ones_iff : exponent = -1#11 ↔ (x.toBits.toNat >>> 52) % 2048 = 2047 := BitVec.toNat_inj.symm
  have small_iff : exponent = 0#11 ↔ (x.toBits.toNat >>> 52) % 2048 = 0 := BitVec.toNat_inj.symm
  have empty_iff : fraction = 0#52 ↔ x.toBits.toNat % leadingBit = 0 := BitVec.toNat_inj.symm
  have negative : x.toBits.toNat.testBit 63 = isNegative sign := testBit_eq_isNegative x.toBits.toBitVec
  rw [parts, Parts.ofBits, negative]
  simp only [← ones_iff, ← small_iff, ← empty_iff]
  by_cases ones : exponent = -1#11
  · rw [if_pos ones]
    by_cases empty : fraction = 0#52
    · have unpacked : x.toModel.unpack = .infinity sign := (if_pos ones).trans (if_pos empty)
      rw [if_pos empty, unpacked]
      rfl
    · have unpacked : x.toModel.unpack = .notANumber := (if_pos ones).trans (if_neg empty)
      rw [if_neg empty, unpacked]
      rfl
  · rw [if_neg ones]
    by_cases small : exponent = 0#11
    · rw [if_pos small]
      by_cases empty : fraction = 0#52
      · have unpacked : x.toModel.unpack = .zero sign := (if_neg ones).trans ((if_pos small).trans (dif_pos empty))
        rw [empty_iff.1 empty, unpacked]
        rfl
      · obtain ⟨positive, unpacked⟩ : ∃ positive, x.toModel.unpack =
            .finite sign fraction.toNat (exponent.toNat - (1023 + 52) + 1) positive :=
          ⟨_, (if_neg ones).trans ((if_pos small).trans (dif_neg empty))⟩
        rw [unpacked, congrArg BitVec.toNat small]
        rfl
    · obtain ⟨positive, unpacked⟩ : ∃ positive, x.toModel.unpack =
          .finite sign (1#1 ++ fraction).toNat (exponent.toNat - (1023 + 52)) positive :=
        ⟨_, (if_neg ones).trans (if_neg small)⟩
      rw [if_neg small, unpacked]
      exact (congrArg (Parts.finite (isNegative sign) · (exponent.toNat - (1023 + 52))) (leading_append fraction)).symm

/-! ### Rounding -/

/-- A significand with all of its bits: the leading one and 52 others. -/
def Normal (significand : Nat) : Prop := leadingBit ≤ significand ∧ significand < 2 * leadingBit

variable {significand : Nat} {exponent : Int}

theorem Normal.pos (normal : Normal significand) : 0 < significand := Nat.lt_of_lt_of_le (by decide) normal.1

theorem Normal.log2_shiftLeft (normal : Normal significand) (places : Nat) :
    (significand <<< places).log2 = 52 + places := by
  obtain ⟨least, most⟩ := normal
  have unit : leadingBit = 2 ^ 52 := rfl
  rw [Nat.shiftLeft_eq]
  have factor : 0 < 2 ^ places := Nat.two_pow_pos places
  have some_bit : significand * 2 ^ places ≠ 0 := (Nat.mul_pos (by omega) factor).ne'
  rw [Nat.log2_eq_iff some_bit, Nat.pow_succ, Nat.pow_add, ← unit, Nat.mul_right_comm, Nat.mul_comm leadingBit 2]
  exact ⟨Nat.mul_le_mul_right _ least, Nat.mul_lt_mul_of_pos_right most factor⟩

/-- Zeros that are shifted out leave nothing to round. -/
theorem shiftRight_exact (places : Nat) :
    ExtendedMantissa.mk (significand <<< places) false false >>> places = ⟨significand, false, false⟩ := by
  induction places generalizing significand with
  | zero => rfl
  | succ places ih =>
    have shifted : significand <<< (places + 1) = (2 * significand) <<< places := by
      rw [Nat.shiftLeft_succ_inside]
    have halved : (ExtendedMantissa.mk (2 * significand) false false).shiftRightOne = ⟨significand, false, false⟩ := by
      have half : 2 * significand / 2 = significand := Nat.mul_div_cancel_left _ (by decide)
      have rest : (2 * significand % 2 != 0) = false := by simp
      change ExtendedMantissa.mk (2 * significand / 2) (2 * significand % 2 != 0) false = _
      rw [half, rest]
    have again : ExtendedMantissa.mk ((2 * significand) <<< places) false false >>> places =
        ⟨2 * significand, false, false⟩ := ih
    rw [shifted]
    exact (congrArg ExtendedMantissa.shiftRightOne again).trans halved

theorem shiftToTargetExponent_exact (normal : Normal significand) (exponent : Int) (places : Nat)
    (least : -1074 ≤ exponent + places) :
    shiftToTargetExponent Format.binary64 (significand <<< places) exponent .exact =
      (⟨significand, false, false⟩, exponent + places) := by
  have target : Format.binary64.targetExponent (totalExponent (significand <<< places) exponent) = exponent + places := by
    change max (((significand <<< places).log2 : Int) + 1 + exponent - 53) (-1074) = _
    rw [normal.log2_shiftLeft]
    omega
  have distance : (exponent + places - exponent).toNat = places := by omega
  change shiftToExponent (significand <<< places) exponent .exact
    (Format.binary64.targetExponent (totalExponent (significand <<< places) exponent)) = _
  rw [target]
  change (ExtendedMantissa.mk (significand <<< places) false false >>> (exponent + places - exponent).toNat,
    exponent + ((exponent + places - exponent).toNat : Int)) = _
  rw [distance, shiftRight_exact]

theorem finite_congr {sign other : Sign} {m n : Nat} {e f : Int} {positive : 0 < m} {also : 0 < n}
    (signs : sign = other) (significands : m = n) (exponents : e = f) :
    UnpackedFloat.finite sign m e positive = .finite other n f also := by
  subst signs significands exponents
  rfl

theorem roundWithAccuracy_exact (normal : Normal significand) (sign : Sign) (exponent : Int) (places : Nat)
    (least : -1074 ≤ exponent + places) :
    roundWithAccuracy Format.binary64 sign (significand <<< places) exponent .exact =
      .finite sign significand (exponent + places) normal.pos := by
  have settled (result : ExtendedMantissa × Int)
      (same : result = (⟨significand, false, false⟩, exponent + places)) :
      (if zero : result.1.mantissa = 0 then UnpackedFloat.zero sign
        else .finite sign result.1.mantissa result.2 (Nat.pos_of_ne_zero zero)) =
      .finite sign significand (exponent + places) normal.pos := by
    subst same
    exact dif_neg normal.pos.ne'
  have again := shiftToTargetExponent_exact normal (exponent + places) 0 (by simpa using least)
  rw [Nat.shiftLeft_zero, Int.natCast_zero, Int.add_zero] at again
  have first := shiftToTargetExponent_exact normal exponent places least
  let shifted := shiftToTargetExponent Format.binary64 (significand <<< places) exponent .exact
  have twice : shiftToTargetExponent Format.binary64 shifted.1.roundedMantissa shifted.2 .exact =
      (⟨significand, false, false⟩, exponent + places) := by
    dsimp only [shifted]
    rw [first]
    exact again
  exact settled _ twice

/-- A magnitude that fits the significand is held by a normal number. -/
theorem round_exact (sign : Sign) {n : Nat} (positive : 0 < n) (fits : n < 2 * leadingBit) :
    ∃ places, ∃ normal : Normal (n <<< places), places ≤ 52 ∧
      UnpackedFloat.round Format.binary64 sign n 0 = .finite sign (n <<< places) (-places) normal.pos := by
  have unit : leadingBit = 2 ^ 52 := rfl
  have bits : n.log2 ≤ 52 := by
    have less := (Nat.log2_lt positive.ne').2 (show n < 2 ^ 53 from fits)
    omega
  have bounds := (Nat.log2_eq_iff positive.ne').1 (Eq.refl n.log2)
  have normal : Normal (n <<< (52 - n.log2)) := by
    have whole : 2 ^ n.log2 * 2 ^ (52 - n.log2) = leadingBit := by
      rw [← Nat.pow_add, unit]
      congr 1
      omega
    have factor : 0 < 2 ^ (52 - n.log2) := Nat.two_pow_pos _
    rw [Nat.shiftLeft_eq, Normal, ← whole, ← Nat.mul_assoc]
    rw [Nat.pow_succ, Nat.mul_comm _ 2] at bounds
    exact ⟨Nat.mul_le_mul_right _ bounds.1, Nat.mul_lt_mul_of_pos_right bounds.2 factor⟩
  refine ⟨52 - n.log2, normal, by omega, ?_⟩
  have target : Format.binary64.targetExponent (totalExponent n 0) = -((52 - n.log2 : Nat) : Int) := by
    change max ((n.log2 : Int) + 1 + 0 - 53) (-1074) = _
    omega
  have distance : ((0 : Int) - -((52 - n.log2 : Nat) : Int)).toNat = 52 - n.log2 := by omega
  change roundWithAccuracy Format.binary64 sign
    (n <<< ((0 : Int) - Format.binary64.targetExponent (totalExponent n 0)).toNat)
    (0 - ((0 : Int) - Format.binary64.targetExponent (totalExponent n 0)).toNat) .exact = _
  rw [target, distance, Int.zero_sub]
  have kept := roundWithAccuracy_exact normal sign (-((52 - n.log2 : Nat) : Int)) 0 (by omega)
  rw [Nat.shiftLeft_zero] at kept
  exact kept.trans (finite_congr rfl rfl (Int.add_zero _))

/-! ### Packing -/

theorem unpackSign_packComponents (sign : Sign) (exponent : BitVec 11) (fraction : BitVec 52) :
    unpackSign (packComponents Format.binary64 sign exponent fraction) = sign.toBitVec := by
  apply BitVec.eq_of_getLsbD_eq
  intro i small
  obtain rfl : i = 0 := by omega
  change ((sign.toBitVec ++ exponent ++ fraction).extractLsb 63 63).getLsbD 0 = _
  simp only [BitVec.getLsbD_extractLsb, BitVec.getLsbD_append]
  simp

theorem ofBitVec_toBitVec (sign : Sign) : Sign.ofBitVec sign.toBitVec = sign := by
  cases sign <;> rfl

theorem Normal.leading_append (normal : Normal significand) :
    (1#1 ++ BitVec.ofNat 52 significand).toNat = significand := by
  obtain ⟨least, most⟩ := normal
  have low : (BitVec.ofNat 52 significand).toNat = significand - leadingBit := by
    calc
      (BitVec.ofNat 52 significand).toNat = significand % leadingBit := BitVec.toNat_ofNat ..
      _ = (significand - leadingBit) % leadingBit := Nat.mod_eq_sub_mod least
      _ = significand - leadingBit := Nat.mod_eq_of_lt (by omega)
  rw [Number.leading_append, low, Nat.add_sub_cancel' least]

/-- Bits that are neither those of zeros nor those of infinities are read as a normal number. -/
theorem unpack_packComponents (sign : Sign) {bias : BitVec 11} (fraction : BitVec 52) (not_ones : bias ≠ -1#11)
    (not_zero : bias ≠ 0#11) :
    ∃ positive, UnpackedFloat.unpack Format.binary64 (packComponents Format.binary64 sign bias fraction) =
      .finite sign (1#1 ++ fraction).toNat (bias.toNat - (1023 + 52)) positive := by
  let word := packComponents Format.binary64 sign bias fraction
  have exponentOf : unpackExponent word = bias := unpackExponent_packComponents
  have fractionOf : unpackMantissa word = fraction := unpackMantissa_packComponents
  have signOf : unpackSign word = sign.toBitVec := unpackSign_packComponents sign bias fraction
  have unpacked : UnpackedFloat.unpack Format.binary64 word = .finite (Sign.ofBitVec (unpackSign word))
      (1#1 ++ unpackMantissa word).toNat ((unpackExponent word).toNat - (1023 + 52)) _ :=
    (if_neg (exponentOf ▸ not_ones)).trans (if_neg (exponentOf ▸ not_zero))
  have positive : 0 < (1#1 ++ fraction).toNat := by
    rw [leading_append]
    exact Nat.add_pos_left (by decide) _
  refine ⟨positive, unpacked.trans (finite_congr ?_ ?_ ?_)⟩
  · rw [signOf, ofBitVec_toBitVec]
  · rw [fractionOf]
  · rw [exponentOf]

/-- A normal number is stored without loss. -/
theorem unpack_pack (normal : Normal significand) (sign : Sign) (least : -1074 ≤ exponent) (most : exponent ≤ 971) :
    (Float.Model.pack (.finite sign significand exponent normal.pos)).unpack =
      .finite sign significand exponent normal.pos := by
  have bits : significand.log2 + 1 = 53 := by
    have places := normal.log2_shiftLeft 0
    rw [Nat.shiftLeft_zero] at places
    omega
  obtain ⟨biased, placed⟩ : ∃ biased : Nat, (biased : Int) = exponent + 1023 + 52 :=
    ⟨(exponent + 1023 + 52).toNat, by omega⟩
  have packed : UnpackedFloat.pack Format.binary64 (.finite sign significand exponent normal.pos) =
      packComponents Format.binary64 sign (BitVec.ofNat 11 biased) (BitVec.ofNat 52 significand) := by
    have same : biased = (exponent + 1023 + 52).toNat := by omega
    have within : ¬ 2048 ≤ (exponent + 1023 + 52).toNat + 1 := by omega
    rw [same]
    exact (if_neg within).trans (if_pos bits)
  have stored : (BitVec.ofNat 11 biased).toNat = biased := Nat.mod_eq_of_lt (by omega)
  have not_ones : BitVec.ofNat 11 biased ≠ -1#11 := by
    intro ones
    have greatest : biased = 2047 := stored.symm.trans (congrArg BitVec.toNat ones)
    omega
  have not_zero : BitVec.ofNat 11 biased ≠ 0#11 := by
    intro zero
    have smallest : biased = 0 := stored.symm.trans (congrArg BitVec.toNat zero)
    omega
  obtain ⟨_, unpacked⟩ := unpack_packComponents sign (BitVec.ofNat 52 significand) not_ones not_zero
  change UnpackedFloat.unpack Format.binary64 (UnpackedFloat.pack Format.binary64 _) = _
  rw [packed, unpacked]
  apply finite_congr rfl normal.leading_append
  rw [stored]
  omega

/-! ### Integers -/

/-- A natural number other than zero is held as its bits behind a leading one. -/
theorem unpack_toFloat {n : Nat} (positive : 0 < n) (fits : n < 2 * leadingBit) :
    ∃ places, ∃ normal : Normal (n <<< places), places ≤ 52 ∧
      n.toUInt64.toFloat.toModel.unpack = .finite .positive (n <<< places) (-places) normal.pos := by
  obtain ⟨places, normal, short, rounded⟩ := round_exact .positive positive fits
  have word : n.toUInt64.toNat = n := Nat.mod_eq_of_lt (Nat.lt_trans fits (by decide))
  have converted : UnpackedFloat.ofUInt64 Format.binary64 n.toUInt64 =
      .finite .positive (n <<< places) (-places) normal.pos := by
    change UnpackedFloat.normalize Format.binary64 (n.toUInt64.toNat : Int) 0 .positive = _
    rw [word, UnpackedFloat.normalize, Int.compare_eq_gt.2 (by omega)]
    exact rounded
  refine ⟨places, normal, short, ?_⟩
  change (Float.Model.pack (UnpackedFloat.ofUInt64 Format.binary64 n.toUInt64)).unpack = _
  rw [converted]
  exact unpack_pack normal .positive (by omega) (by omega)

def one : Float := Float.ofBits 0x3FF0000000000000

theorem unpack_mul_one {x : Float} (normal : Normal significand)
    (held : x.toModel.unpack = .finite .positive significand exponent normal.pos)
    (least : -1074 ≤ exponent) (most : exponent ≤ 971) :
    (x * one).toModel.unpack = .finite .positive significand exponent normal.pos := by
  have unit : one.toModel.unpack = .finite .positive leadingBit (-52) (by decide) := rfl
  have shifted : significand * leadingBit = significand <<< 52 := (Nat.shiftLeft_eq _ 52).symm
  have product := roundWithAccuracy_exact normal .positive (exponent + -52) 52 (by omega)
  have same : UnpackedFloat.finite .positive significand (exponent + -52 + (52 : Nat)) normal.pos =
      .finite .positive significand exponent normal.pos := finite_congr rfl rfl (by omega)
  change (Float.Model.pack (UnpackedFloat.mul Format.binary64 x.toModel.unpack one.toModel.unpack)).unpack = _
  rw [held, unit]
  change (Float.Model.pack (roundWithAccuracy Format.binary64 .positive (significand * leadingBit)
    (exponent + -52) .exact)).unpack = _
  rw [shifted, product, same]
  exact unpack_pack normal .positive least most

theorem unpack_ofNat {n : Nat} (positive : 0 < n) (fits : n < 2 * leadingBit) :
    ∃ places, ∃ normal : Normal (n <<< places), places ≤ 52 ∧
      (Float.ofNat n).toModel.unpack = .finite .positive (n <<< places) (-places) normal.pos := by
  obtain ⟨places, normal, short, held⟩ := unpack_toFloat positive fits
  -- a decimal is read as its digits times a power of ten, which is one here
  have scaled : Float.ofNat n = n.toUInt64.toFloat * one := dif_pos ⟨fits, by decide⟩
  refine ⟨places, normal, short, ?_⟩
  rw [scaled]
  exact unpack_mul_one normal held (by omega) (by omega)

theorem unpack_neg (x : Float) {sign : Sign} (normal : Normal significand)
    (held : x.toModel.unpack = .finite sign significand exponent normal.pos)
    (least : -1074 ≤ exponent) (most : exponent ≤ 971) :
    x.neg.toModel.unpack = .finite (-sign) significand exponent normal.pos := by
  change (Float.Model.pack (UnpackedFloat.neg x.toModel.unpack)).unpack = _
  rw [held]
  exact unpack_pack normal (-sign) least most

theorem Parts.equals_shifted (negative : Bool) (n places : Nat) :
    (Parts.finite negative (n <<< places) (-places)).Equals (signed negative n) := by
  cases places with
  | zero =>
    change signed negative n = signed negative (n <<< 0 * 1)
    rw [Nat.shiftLeft_zero, Nat.mul_one]
  | succ places =>
    change signed negative n * (Nat.pow 2 (places + 1) : Nat) = signed negative (n <<< (places + 1))
    rw [Nat.shiftLeft_eq, ← signed_mul]
    rfl

/-- An integer that fits the significand is held exactly. -/
theorem equals_ofInt {n : Int} (fits : n.natAbs < 2 * leadingBit) : Equals (Float.ofInt n) n := by
  unfold Equals
  rw [parts_eq_ofUnpacked]
  cases n with
  | ofNat n =>
    cases n with
    | zero => exact Int.zero_mul _
    | succ n =>
      obtain ⟨places, normal, _, held⟩ := unpack_ofNat (Nat.succ_pos n) fits
      change (Parts.ofUnpacked (Float.ofNat (n + 1)).toModel.unpack).Equals _
      rw [held]
      exact Parts.equals_shifted false (n + 1) places
  | negSucc n =>
    obtain ⟨places, normal, short, held⟩ := unpack_ofNat (Nat.succ_pos n) fits
    have negated := unpack_neg _ normal held (by omega) (by omega)
    change (Parts.ofUnpacked (Float.ofNat (n + 1)).neg.toModel.unpack).Equals _
    rw [negated]
    exact Parts.equals_shifted true (n + 1) places

theorem word64_bounds (x : Float) : Int64.minValue.toInt ≤ word64 x ∧ word64 x ≤ Int64.maxValue.toInt := by
  unfold word64
  split
  · decide
  · decide
  · decide
  · exact ⟨le_max_left .., max_le (by decide) (min_le_left ..)⟩

/-- A number that is an integer of 64 bits is that integer as a word. -/
theorem word64_of_equals {x : Float} {n : Int} (holds : Equals x n) (least : Int64.minValue.toInt ≤ n)
    (most : n ≤ Int64.maxValue.toInt) : word64 x = n := by
  have whole := whole?_eq_some_iff.2 holds
  unfold whole? at whole
  unfold word64
  cases held : parts x with
  | nan =>
    rw [held] at whole
    cases whole
  | infinite negative =>
    rw [held] at whole
    cases whole
  | finite negative significand exponent =>
    rw [held] at whole
    obtain ⟨_, same⟩ := Option.ite_none_right_eq_some.1 whole
    obtain rfl := Option.some.inj same
    dsimp only
    rw [min_eq_right most, max_eq_right least]

end CompactFont.Number
