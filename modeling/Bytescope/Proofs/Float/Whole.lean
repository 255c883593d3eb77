import Bytescope.Proofs.Float.Rounding

/-!
# Whole numbers in floating point

Whole numbers below `2 ^ 53` have floating-point forms of their own. They are multiplied exactly
as long as the product is one of them, and their quotients are rounded within a cell of a grid:
neighbours on the grid are so close that 53 bits tell them apart.

## Main definitions

* `whole`: the floating-point form of a whole number.
* `RoundsWithin`: a number is rounded within a cell of a grid.

## Main results

* `mul_whole`: products are exact.
* `div_whole`: quotients are rounded within a cell.
-/

open Float.Model Float.Model.UnpackedFloat

namespace Bytescope

/-- The floating-point form of a whole number. -/
def whole (n : ℕ) : UnpackedFloat := UnpackedFloat.ofNat Format.binary64 n

/-- The places by which a number is short of 53 bits. -/
def shortage (n : ℕ) : ℕ := 52 - n.log2

variable {n a b : ℕ}

theorem shortage_le (n : ℕ) : shortage n ≤ 52 := Nat.sub_le _ _

theorem filled_pos (hpos : 0 < n) : 0 < n * 2 ^ shortage n :=
  Nat.mul_pos hpos (Nat.two_pow_pos _)

theorem log2_filled (hpos : 0 < n) (hn : n < 2 ^ 53) : (n * 2 ^ shortage n).log2 = 52 := by
  have hlog : n.log2 < 53 := (Nat.log2_lt hpos.ne').mpr hn
  rw [log2_mul_two_pow hpos.ne', shortage]
  omega

@[simp] theorem whole_zero : whole 0 = .zero .positive := rfl

/-- The significand of a whole number is filled up with zeros. -/
theorem whole_eq (hpos : 0 < n) (hn : n < 2 ^ 53) :
    whole n = .finite .positive (n * 2 ^ shortage n) (-shortage n) (filled_pos hpos) := by
  have hshort := shortage_le n
  have hlog : n.log2 < 53 := (Nat.log2_lt hpos.ne').mpr hn
  have htarget : Format.binary64.targetExponent (totalExponent n 0) = -(shortage n : ℤ) := by
    simp only [Format.targetExponent, totalExponent, Format.mantissaBits, Format.minExponent,
      shortage]
    norm_num
    omega
  have hlimit : -1074 ≤ -(shortage n : ℤ) + (0 : ℕ) := by omega
  have hround := roundWithAccuracy_mul_two_pow .positive 0 (log2_filled hpos hn) (filled_pos hpos)
    hlimit
  rw [pow_zero, Nat.mul_one, Nat.cast_zero, add_zero] at hround
  rw [whole, UnpackedFloat.ofNat, UnpackedFloat.ofInt, UnpackedFloat.normalize,
    Int.compare_eq_gt.mpr (by exact_mod_cast hpos)]
  dsimp only
  rw [Int.toNat_natCast, UnpackedFloat.round, decreaseExponent, htarget]
  dsimp only
  rw [Int.zero_sub, Int.neg_neg, Int.toNat_natCast, Nat.shiftLeft_eq, Int.zero_sub]
  exact hround

theorem unpack_pack_whole (hn : n < 2 ^ 53) : (Float.Model.pack (whole n)).unpack = whole n := by
  rcases Nat.eq_zero_or_pos n with rfl | hpos
  · exact unpack_packedZero
  · have hshort := shortage_le n
    rw [whole_eq hpos hn]
    exact unpack_pack_finite .positive (filled_pos hpos) (log2_filled hpos hn) (by omega) (by omega)

/-! ### Products -/

/-- Products below `2 ^ 53` are exact. -/
theorem mul_whole (ha : 0 < a) (halt : a < 2 ^ 53) (hab : a * b < 2 ^ 53) :
    UnpackedFloat.mul Format.binary64 (whole a) (whole b) = whole (a * b) := by
  rcases Nat.eq_zero_or_pos b with rfl | hb
  · rw [Nat.mul_zero, whole_zero, whole_eq ha halt]
    rfl
  have hblt : b < 2 ^ 53 := (Nat.le_mul_of_pos_left b ha).trans_lt hab
  have hpos : 0 < a * b := Nat.mul_pos ha hb
  obtain ⟨places, hplaces⟩ : ∃ places, shortage a + shortage b = shortage (a * b) + places := by
    have hlog : a.log2 + b.log2 ≤ (a * b).log2 := by
      rw [Nat.le_log2 hpos.ne', pow_add]
      exact Nat.mul_le_mul (Nat.log2_self_le ha.ne') (Nat.log2_self_le hb.ne')
    have hlimit : (a * b).log2 < 53 := (Nat.log2_lt hpos.ne').mpr hab
    simp only [shortage]
    exact Nat.exists_eq_add_of_le (by omega)
  have hproduct : a * 2 ^ shortage a * (b * 2 ^ shortage b) =
      a * b * 2 ^ shortage (a * b) * 2 ^ places := by
    rw [Nat.mul_mul_mul_comm, ← pow_add, hplaces, pow_add, ← Nat.mul_assoc]
  have hexponent : -(shortage a : ℤ) + -(shortage b : ℤ) + places = -(shortage (a * b) : ℤ) := by
    omega
  have hshort := shortage_le (a * b)
  have hlimit : -1074 ≤ -(shortage a : ℤ) + -(shortage b : ℤ) + places := by omega
  have hround := roundWithAccuracy_mul_two_pow .positive places (log2_filled hpos hab)
    (filled_pos hpos) hlimit
  rw [whole_eq ha halt, whole_eq hb hblt, whole_eq hpos hab, UnpackedFloat.mul]
  simp only [hproduct, hexponent] at hround ⊢
  exact hround

/-! ### Quotients -/

theorem zero_div_whole (hb : 0 < b) (hblt : b < 2 ^ 53) :
    (Float.Model.pack (UnpackedFloat.div Format.binary64 (whole 0) (whole b))).unpack =
      .zero .positive := by
  rw [whole_zero, whole_eq hb hblt]
  exact unpack_packedZero

/-- A number is rounded within a cell of a grid, on which numbers of 53 bits are apart: neither the
number nor what it is rounded to leaves the cell. -/
structure RoundsWithin (floor : ℕ) (unit : ℤ) (exact rounded : ℚ) : Prop where
  two_pow_le : 2 ^ 52 ≤ floor
  floor_le : (floor : ℚ) * 2 ^ unit ≤ exact
  lt_succ : exact < (floor + 1) * 2 ^ unit
  floor_le_rounded : (floor : ℚ) * 2 ^ unit ≤ rounded
  rounded_le_succ : rounded ≤ (floor + 1) * 2 ^ unit

namespace RoundsWithin

variable {floor : ℕ} {unit : ℤ} {exact rounded : ℚ}

/-- What is rounded up moves by less than the width of a cell. -/
theorem rounded_le (h : RoundsWithin floor unit exact rounded) : rounded ≤ exact + 2 ^ unit := by
  have hfloor := h.floor_le
  have hrounded := h.rounded_le_succ
  rw [add_one_mul] at hrounded
  linarith

/-- The cells of small numbers are narrow. -/
theorem unit_lt (h : RoundsWithin floor unit exact rounded) {bits : ℤ} (hexact : exact < 2 ^ bits) :
    unit < bits - 52 := by
  have hpos : (0 : ℚ) < 2 ^ unit := zpow_pos (by norm_num) _
  have hfloor : (2 : ℚ) ^ (52 : ℤ) ≤ floor := by exact_mod_cast h.two_pow_le
  have hlt : (2 : ℚ) ^ (52 + unit) < 2 ^ bits := by
    calc (2 : ℚ) ^ (52 + unit) = 2 ^ (52 : ℤ) * 2 ^ unit := zpow_add₀ (by norm_num) _ _
      _ ≤ floor * 2 ^ unit := mul_le_mul_of_nonneg_right hfloor hpos.le
      _ ≤ exact := h.floor_le
      _ < 2 ^ bits := hexact
  have := (zpow_lt_zpow_iff_right₀ (by norm_num)).mp hlt
  omega

/-- A number that lies above a half is not rounded below it. -/
theorem half_le (h : RoundsWithin floor unit exact rounded) (hunit : unit ≤ -1) {k : ℕ}
    (hk : (k : ℚ) - 1 / 2 ≤ exact) : (k : ℚ) - 1 / 2 ≤ rounded := by
  refine le_trans ?_ h.floor_le_rounded
  -- Halves are on the grid, so it is enough to compare their places.
  obtain ⟨places, rfl⟩ : ∃ places : ℕ, unit = -1 - places := ⟨(-1 - unit).toNat, by omega⟩
  have hwidth : (2 : ℚ) ^ (-1 - (places : ℤ)) = 1 / (2 * 2 ^ places) := by
    rw [zpow_sub₀ (by norm_num), zpow_natCast, zpow_neg_one]
    ring
  have hpos : (0 : ℚ) < 2 * 2 ^ places := by positivity
  have hlt := hk.trans_lt h.lt_succ
  rw [hwidth, mul_one_div, lt_div_iff₀ hpos] at hlt
  rw [hwidth, mul_one_div, le_div_iff₀ hpos]
  have hplace : (2 * k - 1 : ℤ) * 2 ^ places < floor + 1 := by
    qify
    linarith
  have hle : (2 * k - 1 : ℤ) * 2 ^ places ≤ floor := Int.lt_add_one_iff.mp hplace
  qify at hle
  linarith

end RoundsWithin

/-- Significands are divided with 53 more places, so that the quotient has 53 or 54 bits. -/
theorem quotient_mem {m n : ℕ} (hm : m.log2 = 52) (hn : n.log2 = 52) :
    2 ^ 52 ≤ m * 2 ^ 53 / n ∧ m * 2 ^ 53 / n < 2 ^ 54 := by
  have hmne : m ≠ 0 := by
    rintro rfl
    exact absurd hm (by decide)
  have hnne : n ≠ 0 := by
    rintro rfl
    exact absurd hn (by decide)
  obtain ⟨hmlow, hmhigh⟩ := (Nat.log2_eq_iff hmne).mp hm
  obtain ⟨hnlow, hnhigh⟩ := (Nat.log2_eq_iff hnne).mp hn
  rw [Nat.le_div_iff_mul_le (Nat.pos_of_ne_zero hnne),
    Nat.div_lt_iff_lt_mul (Nat.pos_of_ne_zero hnne)]
  constructor <;> omega

theorem divCore_eq {m n : ℕ} {e f : ℤ} (hm : m.log2 = 52) (hn : n.log2 = 52)
    (hlimit : -1000 ≤ e - f) : divCore Format.binary64 m e n f =
      (m * 2 ^ 53 / n, e - f - 53, accuracyOfFraction (m * 2 ^ 53 % n) n) := by
  have htarget : min (e - f) (Format.binary64.targetExponent
      (totalExponent m e - totalExponent n f)) = e - f - 53 := by
    simp only [Format.targetExponent, totalExponent, Format.mantissaBits, Format.minExponent, hm,
      hn]
    norm_num
    omega
  rw [divCore, htarget, sub_sub_cancel, Nat.shiftLeft_eq]
  rfl

/-- The quotient is cut off at a place of the grid. -/
theorem quotient_between (m n places : ℕ) (unit : ℤ) :
    ((m / n / 2 ^ places : ℕ) : ℚ) * 2 ^ unit ≤ (m : ℚ) / (n * 2 ^ places : ℕ) * 2 ^ unit ∧
      (m : ℚ) / (n * 2 ^ places : ℕ) * 2 ^ unit <
        ((m / n / 2 ^ places : ℕ) + 1) * 2 ^ unit := by
  rw [Nat.div_div_eq_div_mul, ← Nat.floor_div_eq_div (K := ℚ)]
  constructor <;> gcongr
  · exact Nat.floor_le (by positivity)
  · exact Nat.lt_floor_add_one _

/-- Filled up with zeros, whole numbers have the same quotient, at another place. -/
theorem div_eq_filled (hb : 0 < b) (places : ℕ) : (a / b : ℚ) =
    ((a * 2 ^ shortage a * 2 ^ 53 : ℕ) : ℚ) / (b * 2 ^ shortage b * 2 ^ places : ℕ) *
      2 ^ (-(shortage a : ℤ) - -(shortage b : ℤ) - 53 + places) := by
  have hne : (b : ℚ) ≠ 0 := by exact_mod_cast hb.ne'
  rw [zpow_add₀ (by norm_num), zpow_sub₀ (by norm_num), zpow_sub₀ (by norm_num), zpow_neg,
    zpow_neg]
  push_cast
  simp only [zpow_natCast]
  field_simp

/-- Quotients are rounded within a cell. -/
theorem div_whole (ha : 0 < a) (halt : a < 2 ^ 53) (hb : 0 < b) (hblt : b < 2 ^ 53) :
    ∃ (significand : ℕ) (exponent : ℤ) (hpos : 0 < significand),
      (Float.Model.pack (UnpackedFloat.div Format.binary64 (whole a) (whole b))).unpack =
        .finite .positive significand exponent hpos ∧
      ∃ floor unit, RoundsWithin floor unit (a / b) (significand * 2 ^ exponent) := by
  have hsa := shortage_le a
  have hsb := shortage_le b
  have hm := log2_filled ha halt
  have hn := log2_filled hb hblt
  have hcore := divCore_eq (e := -shortage a) (f := -shortage b) hm hn (by omega)
  obtain ⟨hqlow, hqhigh⟩ := quotient_mem hm hn
  set quotient := a * 2 ^ shortage a * 2 ^ 53 / (b * 2 ^ shortage b) with hquotient
  have hqpos : quotient ≠ 0 := by omega
  have hqlog : quotient.log2 < 54 := (Nat.log2_lt hqpos).mpr hqhigh
  obtain ⟨places, hplaces⟩ : ∃ places, quotient.log2 = 52 + places :=
    Nat.exists_eq_add_of_le ((Nat.le_log2 hqpos).mpr hqlow)
  have hlimit : -1074 ≤ -(shortage a : ℤ) - -(shortage b : ℤ) - 53 + places := by omega
  obtain ⟨significand, exponent, hpos, hround, hlog, hlow, hhigh, hfloor, hceil⟩ :=
    roundWithAccuracy_between .positive
      (accuracyOfFraction (a * 2 ^ shortage a * 2 ^ 53 % (b * 2 ^ shortage b))
        (b * 2 ^ shortage b)) hplaces hlimit
  have hdiv : UnpackedFloat.div Format.binary64 (whole a) (whole b) =
      .finite .positive significand exponent hpos := by
    rw [whole_eq ha halt, whole_eq hb hblt, UnpackedFloat.div]
    simp only [hcore]
    exact hround
  obtain ⟨hle, hlt⟩ := quotient_between (a * 2 ^ shortage a * 2 ^ 53) (b * 2 ^ shortage b) places
    (-(shortage a : ℤ) - -(shortage b : ℤ) - 53 + places)
  rw [← div_eq_filled hb, ← hquotient] at hle hlt
  have hcell : 2 ^ 52 ≤ quotient / 2 ^ places := by
    rw [Nat.le_div_iff_mul_le (Nat.two_pow_pos _), ← pow_add]
    exact (Nat.le_log2 hqpos).mp hplaces.ge
  rw [hdiv, unpack_pack_finite .positive hpos hlog (by omega) (by omega)]
  exact ⟨significand, exponent, hpos, rfl, quotient / 2 ^ places, _, hcell, hle, hlt, hfloor,
    by exact_mod_cast hceil⟩

end Bytescope
