import Bytescope.Channel.Frame
import Bytescope.Proofs.Float.Whole
import Bytescope.Proofs.Histogram.Counting

/-!
# Shares of a histogram

Shares are computed in floating point, but they are the exact ones: the rational share of 255,
rounded to the nearest integer, halves up. A quotient of counts is either half an integer, which
floating-point numbers hold, or so far from every such half that rounding to 53 bits does not
reach it. So shares are in the order of the counts, and they add up to 255 up to what is lost or
gained by rounding them one by one.

## Main definitions

* `Histogram.Fits`: no bucket is beyond its limit.

## Main results

* `Histogram.share_eq`: shares are rounded exactly.
* `Histogram.Fits.total_normalize_mem`: what shares add up to.
* `Histogram.intensities_eq_rounded`: the grey intensities of a histogram.
-/

namespace Bytescope

namespace Histogram

/-! ### Rounding to whole numbers -/

theorem two_zpow_eq_div (e : ℤ) : (2 : ℚ) ^ e = 2 ^ e.toNat / 2 ^ (-e).toNat := by
  rw [← zpow_natCast, ← zpow_natCast, ← zpow_sub₀ (by norm_num)]
  congr 1
  omega

/-- The nearest count to a number is the one less than half away, or just half below it. -/
theorem nearestCount_eq {x : Float} {significand : ℕ} {e : ℤ} {hpos : 0 < significand} {k : ℕ}
    (hx : x.toModel.unpack = .finite .positive significand e hpos) (hk : k ≤ bucketLimit)
    (hlow : (k : ℚ) - 1 / 2 ≤ significand * 2 ^ e)
    (hhigh : (significand : ℚ) * 2 ^ e < k + 1 / 2) : nearestCount x = k := by
  have hden : (0 : ℚ) < 2 ^ (-e).toNat := by positivity
  rw [two_zpow_eq_div, ← mul_div_assoc] at hlow hhigh
  rw [le_div_iff₀ hden] at hlow
  rw [div_lt_iff₀ hden] at hhigh
  have hquotient :
      (2 * (significand * 2 ^ e.toNat) + 2 ^ (-e).toNat) / (2 * 2 ^ (-e).toNat) = k := by
    refine Nat.div_eq_of_lt_le ?_ ?_ <;> qify <;> linarith
  rw [nearestCount, hx]
  dsimp only
  rw [Nat.shiftLeft_eq, Nat.one_shiftLeft, hquotient, Nat.min_eq_left hk]

/-! ### Exact shares -/

variable {total count : ℕ}

/-- The share of 255, rounded to the nearest integer, halves up. -/
def exactShare (total count : ℕ) : ℕ := (510 * count + total) / (2 * total)

theorem exactShare_mul_le (total count : ℕ) :
    exactShare total count * (2 * total) ≤ 510 * count + total :=
  Nat.div_mul_le_self _ _

theorem lt_exactShare_mul (hpos : 0 < total) (count : ℕ) :
    510 * count + total < exactShare total count * (2 * total) + 2 * total :=
  Nat.lt_div_mul_add (by omega)

theorem exactShare_le (hpos : 0 < total) (hcount : count ≤ total) :
    exactShare total count ≤ 255 := by
  rw [exactShare, ← Nat.lt_succ_iff, Nat.div_lt_iff_lt_mul (by omega)]
  omega

theorem exactShare_mono {a b : ℕ} (h : a ≤ b) : exactShare total a ≤ exactShare total b :=
  Nat.div_le_div_right (by omega)

theorem exactShare_eq_floor (hpos : 0 < total) (count : ℕ) :
    exactShare total count = ⌊(255 * count / total : ℚ) + 1 / 2⌋₊ := by
  have htotal : (0 : ℚ) < total := by exact_mod_cast hpos
  have hfraction : (255 * count / total : ℚ) + 1 / 2 =
      ((510 * count + total : ℕ) : ℚ) / (2 * total : ℕ) := by
    push_cast
    field_simp
    ring
  rw [hfraction, Nat.floor_div_eq_div, exactShare]

/-- The exact quotient is not below half less than the share, and well below half more. -/
theorem exactShare_between (hpos : 0 < total) (htotal : total ≤ 2 ^ 40) (count : ℕ) :
    (exactShare total count : ℚ) - 1 / 2 ≤ (255 * count : ℕ) / total ∧
      ((255 * count : ℕ) / total : ℚ) + 2 ^ (-41 : ℤ) ≤ exactShare total count + 1 / 2 := by
  have hlow := exactShare_mul_le total count
  have hhigh := lt_exactShare_mul hpos count
  have hpos' : (0 : ℚ) < total := by exact_mod_cast hpos
  have htotal' : (total : ℚ) ≤ 2 ^ 40 := by exact_mod_cast htotal
  have hroom : 510 * count + 1 ≤ exactShare total count * (2 * total) + total := by omega
  constructor
  · rw [le_div_iff₀ hpos']
    qify at hlow
    push_cast
    linarith
  · have hwidth : (2 : ℚ) ^ (-41 : ℤ) * total ≤ 1 / 2 := by
      calc (2 : ℚ) ^ (-41 : ℤ) * total ≤ 2 ^ (-41 : ℤ) * 2 ^ 40 := by gcongr
        _ = 1 / 2 := by norm_num
    rw [← le_sub_iff_add_le, div_le_iff₀ hpos']
    qify at hroom
    push_cast
    linarith

/-- Counts and totals have exact floating-point values, and so has 255 times a count: only the
quotient is rounded. -/
theorem float_quotient (htotal : total ≤ 2 ^ 40) (hlimit : count ≤ bucketLimit) :
    (255.0 * (UInt32.ofNat count).toFloat / (UInt64.ofNat total).toFloat).toModel =
      Float.Model.pack (.div .binary64 (whole (255 * count)) (whole total)) := by
  have hcount : (UInt32.ofNat count).toFloat.toModel = Float.Model.pack (whole count) := by
    change Float.Model.pack (whole (UInt32.ofNat count).toNat) = _
    rw [UInt32.toNat_ofNat_of_lt' (Nat.lt_succ_of_le hlimit)]
  have htotal' : (UInt64.ofNat total).toFloat.toModel = Float.Model.pack (whole total) := by
    change Float.Model.pack (whole (UInt64.ofNat total).toNat) = _
    rw [UInt64.toNat_ofNat_of_lt' (htotal.trans_lt (by decide))]
  have hfactor : (255.0 : Float).toModel = Float.Model.pack (whole 255) := rfl
  simp only [bucketLimit] at hlimit
  have hproduct : 255 * count < 2 ^ 53 := by omega
  change Float.Model.div (Float.Model.mul (255.0 : Float).toModel
    (UInt32.ofNat count).toFloat.toModel) (UInt64.ofNat total).toFloat.toModel = _
  rw [hcount, htotal', hfactor, Float.Model.mul, unpack_pack_whole (by decide),
    unpack_pack_whole (by omega), mul_whole (by decide) (by decide) hproduct, Float.Model.div,
    unpack_pack_whole hproduct, unpack_pack_whole (by omega)]

/-- **Shares are rounded exactly**, although they are computed in floating point. -/
theorem share_eq (hpos : 0 < total) (htotal : total ≤ 2 ^ 40) (hcount : count ≤ total)
    (hlimit : count ≤ bucketLimit) : share total count = exactShare total count := by
  have hmodel := congrArg Float.Model.unpack (float_quotient htotal hlimit)
  rcases Nat.eq_zero_or_pos count with rfl | hsome
  · have hnone : exactShare total 0 = 0 := Nat.div_eq_of_lt (by omega)
    rw [Nat.mul_zero, zero_div_whole hpos (by omega)] at hmodel
    rw [hnone, share, nearestCount, hmodel]
  · have hproduct : 255 * count < 2 ^ 53 := by omega
    obtain ⟨significand, exponent, hsignificand, hunpack, floor, unit, hwithin⟩ :=
      div_whole (Nat.mul_pos (by decide) hsome) hproduct hpos (by omega)
    obtain ⟨hlow, hhigh⟩ := exactShare_between hpos htotal count
    have hle := exactShare_le hpos hcount
    have hsmall : ((255 * count : ℕ) / total : ℚ) < 2 ^ (8 : ℤ) := by
      have hle' : (exactShare total count : ℚ) ≤ 255 := by exact_mod_cast hle
      calc ((255 * count : ℕ) / total : ℚ) ≤ exactShare total count + 1 / 2 - 2 ^ (-41 : ℤ) :=
          le_sub_right_of_add_le hhigh
        _ < 2 ^ (8 : ℤ) := by norm_num; linarith
    have hunit := hwithin.unit_lt hsmall
    have hwidth : (2 : ℚ) ^ unit < 2 ^ (-41 : ℤ) := zpow_lt_zpow_right₀ (by norm_num) (by omega)
    refine nearestCount_eq (hmodel.trans hunpack) (hle.trans (by decide))
      (hwithin.half_le (by omega) hlow) ?_
    calc (significand * 2 ^ exponent : ℚ) ≤ (255 * count : ℕ) / total + 2 ^ unit :=
        hwithin.rounded_le
      _ < (255 * count : ℕ) / total + 2 ^ (-41 : ℤ) := by gcongr
      _ ≤ exactShare total count + 1 / 2 := hhigh

/-! ### Histograms -/

/-- No bucket is beyond its limit. -/
def Fits (h : Histogram) : Prop := ∀ byte, h.count byte ≤ bucketLimit

variable {h : Histogram}

theorem fits_empty : empty.Fits := fun byte => by
  rw [count_empty]
  exact Nat.zero_le _

theorem Fits.absorb (hfits : h.Fits) (byte : UInt8) : (h.absorb byte).Fits := fun other => by
  rw [count_absorb]
  split_ifs
  · exact Nat.min_le_right _ _
  · exact hfits other

/-- Whatever is counted, no bucket goes beyond its limit. -/
theorem fits_ofBytes (bytes : Array UInt8) : (ofBytes bytes).Fits :=
  Array.foldl_induction (motive := fun _ (h : Histogram) => h.Fits) fits_empty
    fun _ _ hfits => hfits.absorb _

theorem count_le_total (h : Histogram) (byte : UInt8) : h.count byte ≤ h.total := by
  rw [total_eq_sum]
  exact Finset.single_le_sum (f := fun i => h.count (UInt8.ofFin i)) (fun _ _ => Nat.zero_le _)
    (Finset.mem_univ byte.toFin)

theorem Fits.total_le (hfits : h.Fits) : h.total ≤ 2 ^ 40 := by
  rw [total_eq_sum]
  calc ∑ i : Fin 256, h.count (UInt8.ofFin i) ≤ ∑ _i : Fin 256, bucketLimit :=
      Finset.sum_le_sum fun i _ => hfits _
    _ ≤ 2 ^ 40 := by simp [bucketLimit]

/-- Every bucket gets its exact share. -/
theorem Fits.count_normalize (hfits : h.Fits) (hpos : 0 < h.total) (byte : UInt8) :
    h.normalize.count byte = exactShare h.total (h.count byte) := by
  rw [normalize, if_neg hpos.ne', count, ByteTable.lookup_map]
  exact share_eq hpos hfits.total_le (h.count_le_total byte) (hfits byte)

theorem normalize_of_total_eq_zero (h0 : h.total = 0) : h.normalize = h := if_pos h0

theorem count_of_total_eq_zero (h0 : h.total = 0) (byte : UInt8) : h.count byte = 0 :=
  Nat.eq_zero_of_le_zero (h0 ▸ h.count_le_total byte)

theorem Fits.total_normalize (hfits : h.Fits) (hpos : 0 < h.total) :
    h.normalize.total = ∑ i : Fin 256, exactShare h.total (h.count (UInt8.ofFin i)) := by
  rw [total_eq_sum]
  exact Finset.sum_congr rfl fun i _ => hfits.count_normalize hpos _

/-- The shares of 256 buckets are off by at most half each. -/
theorem Fits.total_normalize_mem (hfits : h.Fits) (hpos : 0 < h.total) :
    128 ≤ h.normalize.total ∧ h.normalize.total ≤ 383 := by
  have htotal : ∑ i : Fin 256, (510 * h.count (UInt8.ofFin i) + h.total) =
      510 * h.total + 256 * h.total := by
    rw [Finset.sum_add_distrib, ← Finset.mul_sum, ← total_eq_sum, Finset.sum_const,
      Finset.card_univ, Fintype.card_fin, smul_eq_mul]
  have hle : h.normalize.total * (2 * h.total) ≤ 510 * h.total + 256 * h.total := by
    rw [hfits.total_normalize hpos, Finset.sum_mul, ← htotal]
    exact Finset.sum_le_sum fun i _ => exactShare_mul_le _ _
  have hlt : 510 * h.total + 256 * h.total <
      h.normalize.total * (2 * h.total) + 256 * (2 * h.total) := by
    rw [hfits.total_normalize hpos, Finset.sum_mul, ← htotal]
    calc ∑ i : Fin 256, (510 * h.count (UInt8.ofFin i) + h.total)
        < ∑ i : Fin 256, (exactShare h.total (h.count (UInt8.ofFin i)) * (2 * h.total) +
            2 * h.total) :=
          Finset.sum_lt_sum_of_nonempty Finset.univ_nonempty fun i _ => lt_exactShare_mul hpos _
      _ = _ := by
          rw [Finset.sum_add_distrib, Finset.sum_const, Finset.card_univ, Fintype.card_fin,
            smul_eq_mul]
  constructor
  · by_contra hsmall
    have hmul : h.normalize.total * (2 * h.total) ≤ 127 * (2 * h.total) :=
      Nat.mul_le_mul_right _ (by omega)
    omega
  · by_contra hlarge
    have hmul : 384 * (2 * h.total) ≤ h.normalize.total * (2 * h.total) :=
      Nat.mul_le_mul_right _ (by omega)
    omega

/-! ### Grey intensities -/

theorem lookup_intensities (h : Histogram) (byte : UInt8) :
    h.intensities.lookup byte = UInt8.ofNat (min (h.normalize.count byte) 255) := by
  rw [intensities, ByteTable.lookup_map]
  rfl

theorem Fits.count_normalize_le (hfits : h.Fits) (byte : UInt8) : h.normalize.count byte ≤ 255 := by
  rcases Nat.eq_zero_or_pos h.total with h0 | hpos
  · rw [normalize_of_total_eq_zero h0, count_of_total_eq_zero h0]
    exact Nat.zero_le _
  · rw [hfits.count_normalize hpos]
    exact exactShare_le hpos (h.count_le_total byte)

/-- The table of intensities holds the scaled counts as they are. -/
theorem Fits.toNat_lookup_intensities (hfits : h.Fits) (byte : UInt8) :
    (h.intensities.lookup byte).toNat = h.normalize.count byte := by
  have hle := hfits.count_normalize_le byte
  rw [lookup_intensities, Nat.min_eq_left hle, UInt8.toNat_ofNat_of_lt' (by
    change _ < 256
    omega)]

theorem Fits.count_normalize_mono (hfits : h.Fits) {a b : UInt8} (hle : h.count a ≤ h.count b) :
    h.normalize.count a ≤ h.normalize.count b := by
  rcases Nat.eq_zero_or_pos h.total with h0 | hpos
  · rwa [normalize_of_total_eq_zero h0]
  · rw [hfits.count_normalize hpos, hfits.count_normalize hpos]
    exact exactShare_mono hle

/-- **Grey intensities are exact shares.** The intensity of a byte is its share of 255, rounded to
the nearest integer, halves up: floating point changes none of them, and none has to be cut to fit
a byte. So intensities are in the order of the counts, and they add up to 255, give or take 128. A
histogram that has counted nothing makes all bytes black. The counts stay as they are: after a frame
a channel has the histogram that the frame was made of. -/
theorem intensities_eq_rounded (h : Histogram) (hfits : h.Fits) :
    (0 < h.total →
      (∀ byte, (h.intensities.lookup byte).toNat = (510 * h.count byte + h.total) / (2 * h.total) ∧
        (h.intensities.lookup byte).toNat = ⌊(255 * h.count byte / h.total : ℚ) + 1 / 2⌋₊ ∧
        (h.intensities.lookup byte).toNat = h.normalize.count byte) ∧
      |∑ i : Fin 256, ((h.intensities.lookup (UInt8.ofFin i)).toNat : ℤ) - 255| ≤ 128) ∧
    (h.total = 0 → ∀ byte, h.intensities.lookup byte = 0) ∧
    (∀ a b, h.count a ≤ h.count b → h.intensities.lookup a ≤ h.intensities.lookup b) ∧
    ∀ c : Channel, c.compose.2.histogram = c.currentHistogram := by
  refine ⟨fun hpos => ⟨fun byte => ?_, ?_⟩, fun h0 byte => ?_, fun a b hle => ?_, fun _ => rfl⟩
  · have hshare := hfits.count_normalize hpos byte
    rw [hfits.toNat_lookup_intensities, hshare, exactShare_eq_floor hpos]
    exact ⟨(exactShare_eq_floor hpos _).symm, rfl, rfl⟩
  · obtain ⟨hlow, hhigh⟩ := hfits.total_normalize_mem hpos
    have hsum : ∑ i : Fin 256, ((h.intensities.lookup (UInt8.ofFin i)).toNat : ℤ) =
        h.normalize.total := by
      rw [total_eq_sum]
      push_cast
      exact Finset.sum_congr rfl fun i _ => congrArg _ (hfits.toNat_lookup_intensities _)
    rw [hsum, abs_le]
    omega
  · rw [lookup_intensities, normalize_of_total_eq_zero h0, count_of_total_eq_zero h0]
    rfl
  · rw [UInt8.le_iff_toNat_le, hfits.toNat_lookup_intensities, hfits.toNat_lookup_intensities]
    exact hfits.count_normalize_mono hle

/-- Two bytes that are equally frequent have half of 255 each, which is rounded up for both. -/
theorem intensities_eq_rounded_of_halves :
    let h := ofBytes #[0, 1]
    (h.Fits ∧ 0 < h.total ∧ (h.intensities.lookup 0).toNat = 128 ∧
      (h.intensities.lookup 1).toNat = 128) ∧
    (h.count 2 ≤ h.count 1 ∧ h.intensities.lookup 2 ≤ h.intensities.lookup 1) ∧
    empty.Fits ∧ empty.total = 0 ∧ empty.intensities.lookup 7 = 0 := by
  intro h
  have hsize : (#[0, 1] : Array UInt8).size ≤ bucketLimit := by decide
  have hcounts := counts_ofBytes hsize
  have htotal : h.total = 2 := hcounts.total_eq
  have hpos : 0 < h.total := by
    rw [htotal]
    decide
  have hle : h.count 2 ≤ h.count 1 := by
    rw [hcounts, hcounts]
    decide
  have hnone : empty.total = 0 := counts_empty.total_eq
  obtain ⟨hrounded, -, hmono, -⟩ := intensities_eq_rounded h (fits_ofBytes _)
  obtain ⟨-, hblack, -, -⟩ := intensities_eq_rounded empty fits_empty
  obtain ⟨hbyte, -⟩ := hrounded hpos
  refine ⟨⟨fits_ofBytes _, hpos, ?_, ?_⟩, ⟨hle, hmono 2 1 hle⟩, fits_empty, hnone, hblack hnone 7⟩
  · rw [(hbyte 0).1, htotal, hcounts]
    rfl
  · rw [(hbyte 1).1, htotal, hcounts]
    rfl

end Histogram

end Bytescope
