import Mathlib

/-!
# Rounding to 53 bits

Floating-point numbers hold significands of 53 bits. An exact result with more bits loses its
last places: nothing is lost if these are zero, and otherwise the result is one of the two
numbers of 53 bits between which it lies. What is said here holds of normal numbers, those whose
significand has all of its 53 bits.

## Main results

* `roundWithAccuracy_mul_two_pow`: places that are zero are lost without harm.
* `roundWithAccuracy_between`: a result is rounded to one of its neighbours.
* `unpack_pack_finite`: normal numbers are kept as they are.
-/

open Float.Model Float.Model.UnpackedFloat

namespace Bytescope

variable {mantissa : ℕ} {exponent : ℤ} {accuracy : Accuracy}

theorem log2_mul_two_pow {n : ℕ} (hn : n ≠ 0) (places : ℕ) :
    (n * 2 ^ places).log2 = n.log2 + places := by
  rw [Nat.log2_eq_iff (Nat.mul_ne_zero hn (Nat.two_pow_pos _).ne'), pow_add, Nat.add_right_comm,
    pow_add]
  exact ⟨Nat.mul_le_mul_right _ (Nat.log2_self_le hn),
    Nat.mul_lt_mul_of_pos_right Nat.lt_log2_self (Nat.two_pow_pos _)⟩

/-! ### Shifting out the last places -/

theorem mantissa_ofMantissaAndAccuracy (mantissa : ℕ) (accuracy : Accuracy) :
    (ExtendedMantissa.ofMantissaAndAccuracy mantissa accuracy).mantissa = mantissa := by
  rcases accuracy with _ | (_ | _ | _) <;> rfl

/-- A shift cuts off the last places. -/
theorem mantissa_shiftRight (m : ExtendedMantissa) (places : ℕ) :
    (m >>> places).mantissa = m.mantissa / 2 ^ places := by
  induction places with
  | zero =>
    rw [pow_zero, Nat.div_one]
    rfl
  | succ places ih =>
    change (m >>> places).mantissa / 2 = _
    rw [ih, Nat.div_div_eq_div_mul, pow_succ]

/-- A shift that cuts off zeros leaves nothing to be rounded. -/
theorem shiftRight_mul_two_pow (mantissa places : ℕ) :
    (⟨mantissa * 2 ^ places, false, false⟩ : ExtendedMantissa) >>> places =
      ⟨mantissa, false, false⟩ := by
  induction places generalizing mantissa with
  | zero =>
    rw [pow_zero, Nat.mul_one]
    rfl
  | succ places ih =>
    change ((⟨mantissa * 2 ^ (places + 1), false, false⟩ : ExtendedMantissa) >>>
      places).shiftRightOne = _
    rw [pow_succ', ← Nat.mul_assoc, ih]
    simp [ExtendedMantissa.shiftRightOne]

/-- Rounding goes up by one or not at all. -/
theorem roundedMantissa_mem (m : ExtendedMantissa) :
    m.mantissa ≤ m.roundedMantissa ∧ m.roundedMantissa ≤ m.mantissa + 1 := by
  obtain ⟨mantissa, round, sticky⟩ := m
  cases round <;> cases sticky <;>
    simp only [ExtendedMantissa.roundedMantissa, ExtendedMantissa.accuracy,
      Accuracy.roundToNearestEven] <;> omega

/-! ### Rounding -/

/-- A significand is shifted until it has 53 bits. -/
theorem shiftToTargetExponent_eq {places : ℕ} (accuracy : Accuracy)
    (hm : mantissa.log2 = 52 + places) (he : -1074 ≤ exponent + places) :
    shiftToTargetExponent Format.binary64 mantissa exponent accuracy =
      (ExtendedMantissa.ofMantissaAndAccuracy mantissa accuracy >>> places, exponent + places) := by
  have htarget : Format.binary64.targetExponent (totalExponent mantissa exponent) =
      exponent + places := by
    simp only [Format.targetExponent, totalExponent, Format.mantissaBits, Format.minExponent, hm]
    norm_num
    omega
  rw [shiftToTargetExponent, htarget, shiftToExponent, add_sub_cancel_left, Int.toNat_natCast]

theorem shiftToTargetExponent_mul_two_pow (places : ℕ) (hm : mantissa.log2 = 52)
    (he : -1074 ≤ exponent + places) :
    shiftToTargetExponent Format.binary64 (mantissa * 2 ^ places) exponent .exact =
      (⟨mantissa, false, false⟩, exponent + places) := by
  have hne : mantissa ≠ 0 := by
    rintro rfl
    exact absurd hm (by decide)
  rw [shiftToTargetExponent_eq .exact (by rw [log2_mul_two_pow hne, hm]) he]
  exact congrArg (·, _) (shiftRight_mul_two_pow mantissa places)

/-- A significand of 53 bits is not shifted. -/
theorem shiftToTargetExponent_self (hm : mantissa.log2 = 52) (he : -1074 ≤ exponent) :
    shiftToTargetExponent Format.binary64 mantissa exponent .exact =
      (⟨mantissa, false, false⟩, exponent) := by
  have hlimit : -1074 ≤ exponent + (0 : ℕ) := by rwa [Nat.cast_zero, add_zero]
  have hshift := shiftToTargetExponent_mul_two_pow 0 hm hlimit
  rwa [pow_zero, Nat.mul_one, Nat.cast_zero, add_zero] at hshift

/-- Rounding is a shift, which may carry into a further place, and a shift that puts this right. -/
theorem roundWithAccuracy_eq {spec : Format} {sign : Sign} {first : ExtendedMantissa}
    {middle final : ℤ} {significand : ℕ}
    (hfirst : shiftToTargetExponent spec mantissa exponent accuracy = (first, middle))
    (hfinal : shiftToTargetExponent spec first.roundedMantissa middle .exact =
      (⟨significand, false, false⟩, final)) (hpos : 0 < significand) :
    roundWithAccuracy spec sign mantissa exponent accuracy =
      .finite sign significand final hpos := by
  simp only [roundWithAccuracy, hfirst, hfinal, dif_neg hpos.ne']

/-- Places that are zero are lost without harm. -/
theorem roundWithAccuracy_mul_two_pow (sign : Sign) (places : ℕ) (hm : mantissa.log2 = 52)
    (hpos : 0 < mantissa) (he : -1074 ≤ exponent + places) :
    roundWithAccuracy Format.binary64 sign (mantissa * 2 ^ places) exponent .exact =
      .finite sign mantissa (exponent + places) hpos :=
  roundWithAccuracy_eq (shiftToTargetExponent_mul_two_pow places hm he)
    (shiftToTargetExponent_self hm he) hpos

/-- A rounded significand of 53 bits is the result. -/
theorem roundWithAccuracy_of_lt (sign : Sign) {first : ExtendedMantissa} {middle : ℤ}
    (hshift : shiftToTargetExponent Format.binary64 mantissa exponent accuracy = (first, middle))
    (hlow : 2 ^ 52 ≤ first.roundedMantissa) (hhigh : first.roundedMantissa < 2 ^ 53)
    (he : -1074 ≤ middle) : first.roundedMantissa.log2 = 52 ∧
      roundWithAccuracy Format.binary64 sign mantissa exponent accuracy =
        .finite sign first.roundedMantissa middle
          (Nat.lt_of_lt_of_le (Nat.two_pow_pos _) hlow) := by
  have hpos : 0 < first.roundedMantissa := Nat.lt_of_lt_of_le (Nat.two_pow_pos _) hlow
  have hlog : first.roundedMantissa.log2 = 52 := (Nat.log2_eq_iff hpos.ne').mpr ⟨hlow, hhigh⟩
  exact ⟨hlog, roundWithAccuracy_eq hshift (shiftToTargetExponent_self hlog he) hpos⟩

/-- Rounding up may give a significand of 54 bits. Its last place is zero. -/
theorem roundWithAccuracy_of_carry (sign : Sign) {first : ExtendedMantissa} {middle : ℤ}
    (hshift : shiftToTargetExponent Format.binary64 mantissa exponent accuracy = (first, middle))
    (hcarry : first.roundedMantissa = 2 ^ 53) (he : -1074 ≤ middle) :
    roundWithAccuracy Format.binary64 sign mantissa exponent accuracy =
      .finite sign (2 ^ 52) (middle + 1) (Nat.two_pow_pos _) := by
  have hlimit : -1074 ≤ middle + (1 : ℕ) := by omega
  have hfinal := shiftToTargetExponent_mul_two_pow 1 (Nat.log2_two_pow (n := 52)) hlimit
  rw [← pow_add, ← hcarry] at hfinal
  exact roundWithAccuracy_eq hshift hfinal (Nat.two_pow_pos _)

theorem div_two_pow_mem {places : ℕ} (hm : mantissa.log2 = 52 + places) :
    2 ^ 52 ≤ mantissa / 2 ^ places ∧ mantissa / 2 ^ places < 2 ^ 53 := by
  have hne : mantissa ≠ 0 := by
    rintro rfl
    rw [Nat.log2_zero] at hm
    omega
  obtain ⟨hlow, hhigh⟩ := (Nat.log2_eq_iff hne).mp hm
  rw [Nat.le_div_iff_mul_le (Nat.two_pow_pos _), Nat.div_lt_iff_lt_mul (Nat.two_pow_pos _),
    ← pow_add, ← pow_add]
  exact ⟨hlow, by rwa [Nat.add_right_comm] at hhigh⟩

/-- A result is rounded to one of its two neighbours. -/
theorem roundWithAccuracy_between (sign : Sign) (accuracy : Accuracy) {places : ℕ}
    (hm : mantissa.log2 = 52 + places) (he : -1074 ≤ exponent + places) :
    ∃ (significand : ℕ) (final : ℤ) (hpos : 0 < significand),
      roundWithAccuracy Format.binary64 sign mantissa exponent accuracy =
        .finite sign significand final hpos ∧ significand.log2 = 52 ∧
      exponent + places ≤ final ∧ final ≤ exponent + places + 1 ∧
      ((mantissa / 2 ^ places : ℕ) : ℚ) * 2 ^ (exponent + places) ≤ significand * 2 ^ final ∧
      (significand : ℚ) * 2 ^ final ≤
        ((mantissa / 2 ^ places + 1 : ℕ) : ℚ) * 2 ^ (exponent + places) := by
  obtain ⟨hfloor, hceil⟩ := div_two_pow_mem hm
  have hshift := shiftToTargetExponent_eq accuracy hm he
  set first := ExtendedMantissa.ofMantissaAndAccuracy mantissa accuracy >>> places with hfirst
  obtain ⟨hle, hsucc⟩ := roundedMantissa_mem first
  rw [hfirst, mantissa_shiftRight, mantissa_ofMantissaAndAccuracy, ← hfirst] at hle hsucc
  have hlower : ((mantissa / 2 ^ places : ℕ) : ℚ) * 2 ^ (exponent + places) ≤
      first.roundedMantissa * 2 ^ (exponent + places) := by
    gcongr
  have hupper : (first.roundedMantissa : ℚ) * 2 ^ (exponent + places) ≤
      ((mantissa / 2 ^ places + 1 : ℕ) : ℚ) * 2 ^ (exponent + places) := by
    gcongr
  rcases Nat.lt_or_ge first.roundedMantissa (2 ^ 53) with hroom | hfull
  · obtain ⟨hlog, hround⟩ := roundWithAccuracy_of_lt sign hshift (hfloor.trans hle) hroom he
    exact ⟨_, _, _, hround, hlog, le_rfl, by omega, hlower, hupper⟩
  · have hcarry : first.roundedMantissa = 2 ^ 53 := by omega
    have hvalue : (first.roundedMantissa : ℚ) * 2 ^ (exponent + places) =
        ((2 ^ 52 : ℕ) : ℚ) * 2 ^ (exponent + places + 1) := by
      rw [hcarry, zpow_add_one₀ (by norm_num)]
      push_cast
      ring
    rw [hvalue] at hlower hupper
    exact ⟨_, _, _, roundWithAccuracy_of_carry sign hshift hcarry he, Nat.log2_two_pow, by omega,
      le_rfl, hlower, hupper⟩

/-! ### Numbers in memory -/

/-- Normal numbers are kept as they are. -/
theorem unpack_pack_finite (sign : Sign) (hpos : 0 < mantissa) (hm : mantissa.log2 = 52)
    (hlow : -1074 ≤ exponent) (hhigh : exponent ≤ 970) :
    (Float.Model.pack (.finite sign mantissa exponent hpos)).unpack =
      .finite sign mantissa exponent hpos := by
  obtain ⟨hfloor, hceil⟩ := (Nat.log2_eq_iff hpos.ne').mp hm
  obtain ⟨biased, hbiased⟩ : ∃ biased : ℕ, exponent + 1075 = biased :=
    ⟨(exponent + 1075).toNat, by omega⟩
  have hfield : BitVec.ofNat 11 biased ≠ -1#11 ∧ BitVec.ofNat 11 biased ≠ 0#11 := by
    rw [Ne, Ne, ← BitVec.toNat_inj, ← BitVec.toNat_inj, BitVec.toNat_ofNat,
      Nat.mod_eq_of_lt (by omega)]
    exact ⟨by change biased ≠ 2047; omega, by change biased ≠ 0; omega⟩
  -- The first bit of the significand is not kept: it is one.
  have hbits : (1#1 ++ BitVec.ofNat 52 mantissa).toNat = mantissa := by
    rw [BitVec.toNat_append, ← Nat.shiftLeft_add_eq_or_of_lt (BitVec.isLt _), BitVec.toNat_ofNat]
    change 2 ^ 52 + mantissa % 2 ^ 52 = _
    omega
  have hexponent : exponent + (Format.binary64.exponentBias : ℤ) +
      (Format.binary64.mantissaBitsWithoutImplicit : ℤ) = biased := by
    rw [← hbiased, add_assoc]
    rfl
  have hpack : UnpackedFloat.pack Format.binary64 (.finite sign mantissa exponent hpos) =
      packComponents Format.binary64 sign (BitVec.ofNat 11 biased) (BitVec.ofNat 52 mantissa) := by
    rw [UnpackedFloat.pack]
    dsimp only
    rw [hexponent, Int.toNat_natCast, if_neg (by change ¬ 2048 ≤ _; omega),
      if_pos (by rw [hm]; rfl)]
  rw [Float.Model.unpack, Float.Model.pack]
  dsimp only
  rw [hpack, UnpackedFloat.unpack]
  simp only [unpackExponent_packComponents, unpackMantissa_packComponents,
    unpackSign_packComponents]
  rw [if_neg hfield.1, if_neg hfield.2]
  simp only [hbits, Sign.ofBitVec_toBitVec]
  congr 1
  rw [BitVec.toNat_ofNat, Nat.mod_eq_of_lt (by change _ < 2048; omega)]
  exact sub_eq_of_eq_add hbiased.symm

end Bytescope
