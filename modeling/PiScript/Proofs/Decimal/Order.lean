import Mathlib.Algebra.Order.Ring.Abs
import Mathlib.Tactic.Linarith
import PiScript.Proofs.Decimal.Arithmetic

/-!
# The order of decimals

Comparing two decimals compares the numbers they stand for. Sizes whose leading digits stand at
different powers of ten are told apart by these powers, and only sizes that share one are brought
to a common scale; `ten_zpow_adjusted_le` and `lt_ten_zpow_adjusted` are the bounds behind this.
-/

namespace PiScript

namespace Decimal

theorem ten_zpow_pos (e : Int) : (0 : ℚ) < (10 : ℚ) ^ e :=
  zpow_pos (by norm_num) e

/-! ## Signs and sizes -/

theorem toRat_pos_iff (d : Decimal) : 0 < d.toRat ↔ 0 < d.unscaled := by
  rw [toRat, mul_pos_iff_of_pos_right (ten_zpow_pos _), Int.cast_pos]

theorem toRat_neg_iff (d : Decimal) : d.toRat < 0 ↔ d.unscaled < 0 := by
  rw [← not_le, toRat, mul_nonneg_iff_of_pos_right (ten_zpow_pos _), Int.cast_nonneg_iff, not_le]

theorem toRat_eq_zero_iff (d : Decimal) : d.toRat = 0 ↔ d.unscaled = 0 := by
  rw [toRat, mul_eq_zero_iff_right (ten_zpow_pos _).ne', Int.cast_eq_zero]

theorem abs_toRat (d : Decimal) : |d.toRat| = d.unscaled.natAbs * (10 : ℚ) ^ (-d.scale) := by
  rw [toRat, abs_mul, abs_of_pos (ten_zpow_pos _), Nat.cast_natAbs, Int.cast_abs]

/-! ## Leading digits -/

theorem lt_ten_pow_length_digits (n : Nat) : n < 10 ^ (digits n).length := by
  rw [digits_eq_toDigits]
  exact (Nat.length_toDigits_le_iff (by decide) Nat.length_toDigits_pos).mp (Nat.le_refl _)

theorem ten_pow_length_digits_le {n : Nat} (hn : n ≠ 0) : 10 ^ ((digits n).length - 1) ≤ n := by
  rw [digits_eq_toDigits]
  by_cases hone : (Nat.toDigits 10 n).length = 1
  · rw [hone]
    omega
  · have hpos : 0 < (Nat.toDigits 10 n).length := Nat.length_toDigits_pos
    apply Nat.le_of_not_lt
    intro hlt
    have hlen := (Nat.length_toDigits_le_iff (by decide) (by omega)).mpr hlt
    omega

/-- The number is at least a one at its leading power of ten. -/
theorem ten_zpow_adjusted_le {d : Decimal} (h : d.unscaled ≠ 0) :
    (10 : ℚ) ^ d.adjusted ≤ |d.toRat| := by
  have hle : 10 ^ ((digits d.unscaled.natAbs).length - 1) ≤ d.unscaled.natAbs :=
    ten_pow_length_digits_le (Int.natAbs_ne_zero.mpr h)
  have hpos : 0 < (digits d.unscaled.natAbs).length := by
    rw [digits_eq_toDigits]
    exact Nat.length_toDigits_pos
  have hadj : d.adjusted = (((digits d.unscaled.natAbs).length - 1 : Nat) : Int) + -d.scale := by
    rw [adjusted]
    omega
  rw [abs_toRat, hadj, zpow_add₀ ten_ne_zero, zpow_natCast]
  apply mul_le_mul_of_nonneg_right _ (ten_zpow_pos _).le
  exact_mod_cast hle

/-- The number is less than a ten at its leading power of ten. -/
theorem lt_ten_zpow_adjusted (d : Decimal) : |d.toRat| < (10 : ℚ) ^ (d.adjusted + 1) := by
  have hlt := lt_ten_pow_length_digits d.unscaled.natAbs
  have hadj : d.adjusted + 1 = ((digits d.unscaled.natAbs).length : Int) + -d.scale := by
    rw [adjusted]
    omega
  rw [abs_toRat, hadj, zpow_add₀ ten_ne_zero, zpow_natCast]
  apply mul_lt_mul_of_pos_right _ (ten_zpow_pos _)
  exact_mod_cast hlt

theorem abs_lt_of_adjusted_lt {a b : Decimal} (hb : b.unscaled ≠ 0)
    (h : a.adjusted < b.adjusted) : |a.toRat| < |b.toRat| :=
  calc
    |a.toRat| < (10 : ℚ) ^ (a.adjusted + 1) := lt_ten_zpow_adjusted a
    _ ≤ (10 : ℚ) ^ b.adjusted := zpow_le_zpow_right₀ (by norm_num) (by omega)
    _ ≤ |b.toRat| := ten_zpow_adjusted_le hb

/-! ## Comparison -/

/-- Sizes at a common scale compare as their integers. -/
theorem compare_natAbs_unscaledAt (a b : Decimal) {s : Int} (ha : a.scale ≤ s) (hb : b.scale ≤ s) :
    compare (a.unscaledAt s).natAbs (b.unscaledAt s).natAbs = compare |a.toRat| |b.toRat| := by
  rw [toRat_eq_unscaledAt a ha, toRat_eq_unscaledAt b hb, abs_mul, abs_mul,
    abs_of_pos (ten_zpow_pos _), ← Int.cast_abs, ← Int.cast_abs, ← Nat.cast_natAbs,
    ← Nat.cast_natAbs, ← cmp_eq_compare, ← cmp_eq_compare, cmp_mul_pos_right (ten_zpow_pos _),
    Nat.strictMono_cast.cmp_map_eq]

theorem cmpSize_eq_compare {a b : Decimal} (ha : a.unscaled ≠ 0) (hb : b.unscaled ≠ 0) :
    a.cmpSize b = compare |a.toRat| |b.toRat| := by
  unfold cmpSize
  by_cases hlt : a.adjusted < b.adjusted
  · rw [if_pos hlt, eq_comm, compare_lt_iff_lt]
    exact abs_lt_of_adjusted_lt hb hlt
  by_cases hgt : b.adjusted < a.adjusted
  · rw [if_neg hlt, if_pos hgt, eq_comm, compare_gt_iff_gt]
    exact abs_lt_of_adjusted_lt ha hgt
  · rw [if_neg hlt, if_neg hgt]
    exact compare_natAbs_unscaledAt a b (le_max_left _ _) (le_max_right _ _)

theorem toRat_lt_of_sign_lt {a b : Decimal} (h : a.unscaled.sign < b.unscaled.sign) :
    a.toRat < b.toRat := by
  by_cases ha : a.unscaled < 0
  · have hb : ¬b.unscaled < 0 := by
      intro hb
      rw [Int.sign_eq_neg_one_of_neg ha, Int.sign_eq_neg_one_of_neg hb] at h
      omega
    rw [← toRat_neg_iff] at ha hb
    linarith
  · have hb : 0 < b.unscaled := by
      apply Int.lt_of_not_ge
      intro hb
      have hsign_a : 0 ≤ a.unscaled.sign := Int.sign_nonneg_iff.mpr (by omega)
      have hsign_b : b.unscaled.sign ≤ 0 := Int.sign_nonpos_iff.mpr hb
      omega
    have ha' : ¬0 < a.unscaled := by
      intro ha'
      rw [Int.sign_eq_one_of_pos ha', Int.sign_eq_one_of_pos hb] at h
      omega
    rw [← toRat_pos_iff] at ha' hb
    linarith

/-- Comparing decimals compares numbers, whatever the scales. -/
theorem cmp_eq_compare_toRat (a b : Decimal) : a.cmp b = compare a.toRat b.toRat := by
  unfold cmp
  by_cases hlt : a.unscaled.sign < b.unscaled.sign
  · rw [if_pos hlt, eq_comm, compare_lt_iff_lt]
    exact toRat_lt_of_sign_lt hlt
  by_cases hgt : b.unscaled.sign < a.unscaled.sign
  · rw [if_neg hlt, if_pos hgt, eq_comm, compare_gt_iff_gt]
    exact toRat_lt_of_sign_lt hgt
  have hsign : a.unscaled.sign = b.unscaled.sign := by omega
  rw [if_neg hlt, if_neg hgt]
  by_cases hzero : a.unscaled = 0
  · have hb : b.unscaled = 0 := by
      rwa [hzero, Int.sign_zero, eq_comm, Int.sign_eq_zero_iff_zero] at hsign
    rw [if_pos hzero, toRat_eq_zero_of_unscaled hzero, toRat_eq_zero_of_unscaled hb]
    rfl
  have hb : b.unscaled ≠ 0 := by
    intro hb
    rw [hb, Int.sign_zero, Int.sign_eq_zero_iff_zero] at hsign
    exact hzero hsign
  by_cases hpos : 0 < a.unscaled
  · have hpos' : 0 < b.unscaled := by
      rwa [Int.sign_eq_one_of_pos hpos, eq_comm, Int.sign_eq_one_iff_pos] at hsign
    rw [if_neg hzero, if_pos hpos, cmpSize_eq_compare hzero hb,
      abs_of_pos ((toRat_pos_iff a).mpr hpos), abs_of_pos ((toRat_pos_iff b).mpr hpos')]
  -- Of two negative numbers the larger is the one of smaller size.
  · have hneg : a.unscaled < 0 := by omega
    have hneg' : b.unscaled < 0 := by
      rwa [Int.sign_eq_neg_one_of_neg hneg, eq_comm, Int.sign_eq_neg_one_iff_neg] at hsign
    have hanti : StrictAnti fun x : ℚ => -x := fun x y h => neg_lt_neg h
    rw [if_neg hzero, if_neg hpos, cmpSize_eq_compare hb hzero,
      abs_of_neg ((toRat_neg_iff a).mpr hneg), abs_of_neg ((toRat_neg_iff b).mpr hneg'),
      ← cmp_eq_compare, ← cmp_eq_compare]
    exact hanti.cmp_map_eq b.toRat a.toRat

end Decimal

end PiScript
