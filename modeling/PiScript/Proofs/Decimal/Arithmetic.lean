import PiScript.Proofs.Decimal.Rational

/-!
# Sums, differences and products of decimals

The three operations are exact: the number that the result stands for is the sum, the difference or
the product of the two numbers, whatever the scales. The short cuts for a zero summand and for a
factor of one change how the result is written and nothing else.
-/

namespace PiScript

namespace Decimal

theorem ten_ne_zero : (10 : ℚ) ≠ 0 := by
  norm_num

theorem toRat_eq_zero_of_unscaled {d : Decimal} (h : d.unscaled = 0) : d.toRat = 0 := by
  rw [toRat, h, Int.cast_zero, zero_mul]

/-- The number at any scale that is no smaller than its own. -/
theorem toRat_eq_unscaledAt (d : Decimal) {s : Int} (h : d.scale ≤ s) :
    d.toRat = d.unscaledAt s * (10 : ℚ) ^ (-s) := by
  have hscale : d.scale + ((s - d.scale).toNat : Int) = s := by omega
  rw [← toRat_extend d (s - d.scale).toNat, toRat, extend, hscale, unscaledAt]

/-! ## Sums and differences -/

theorem toRat_extendTowards (d : Decimal) (s : Int) : (d.extendTowards s).toRat = d.toRat :=
  toRat_extend d _

theorem toRat_add (a b : Decimal) : (a.add b).toRat = a.toRat + b.toRat := by
  unfold add
  by_cases hb : b.unscaled = 0
  · rw [if_pos hb, toRat_extendTowards, toRat_eq_zero_of_unscaled hb, add_zero]
  by_cases ha : a.unscaled = 0
  · rw [if_neg hb, if_pos ha, toRat_extendTowards, toRat_eq_zero_of_unscaled ha, zero_add]
  · rw [if_neg hb, if_neg ha, toRat_eq_unscaledAt a (le_max_left a.scale b.scale),
      toRat_eq_unscaledAt b (le_max_right a.scale b.scale), toRat]
    push_cast
    ring

theorem toRat_sub (a b : Decimal) : (a.sub b).toRat = a.toRat - b.toRat := by
  rw [toRat_eq_unscaledAt a (le_max_left a.scale b.scale),
    toRat_eq_unscaledAt b (le_max_right a.scale b.scale), sub, toRat]
  push_cast
  ring

/-! ## Products -/

/-- A trailing zero moves into the scale. -/
theorem toRat_div_ten {n : Int} (h : n % 10 = 0) (s : Int) :
    (⟨n / 10, s - 1⟩ : Decimal).toRat = (⟨n, s⟩ : Decimal).toRat := by
  have hn : (n : ℚ) = (n / 10 : Int) * 10 := by
    rw [← Int.cast_ofNat (R := ℚ) 10, ← Int.cast_mul,
      Int.ediv_mul_cancel (Int.dvd_of_emod_eq_zero h)]
  have hpow : (10 : ℚ) ^ (-(s - 1)) = 10 * (10 : ℚ) ^ (-s) := by
    rw [show -(s - 1) = 1 + -s by ring, zpow_add₀ ten_ne_zero, zpow_one]
  rw [toRat, toRat, hn, hpow, mul_assoc]

theorem toRat_stripZeros (n s : Int) : (stripZeros n s).toRat = (⟨n, s⟩ : Decimal).toRat := by
  fun_induction stripZeros n s with
  | case1 n s h ih => rw [ih, toRat_div_ten h.2]
  | case2 n s h => rfl

theorem toRat_normalize (d : Decimal) : d.normalize.toRat = d.toRat := by
  unfold normalize
  by_cases hd : d.unscaled = 0
  · rw [if_pos hd, toRat_eq_zero_of_unscaled hd, toRat_eq_zero_of_unscaled rfl]
  · rw [if_neg hd, toRat_stripZeros]

theorem toRat_of_isOne {d : Decimal} (h : d.isOne = true) : d.toRat = 1 := by
  simp only [isOne, Bool.and_eq_true, decide_eq_true_eq, beq_iff_eq] at h
  obtain ⟨⟨hscale, -⟩, hunscaled⟩ := h
  have hpow : (d.scale.toNat : Int) + -d.scale = 0 := by omega
  rw [toRat, hunscaled, Int.cast_natCast, cast_tenPow, ← zpow_natCast, ← zpow_add₀ ten_ne_zero, hpow,
    zpow_zero]

theorem toRat_mul (a b : Decimal) : (a.mul b).toRat = a.toRat * b.toRat := by
  unfold mul
  by_cases ha : a.isOne = true
  · rw [if_pos ha, toRat_normalize, toRat_of_isOne ha, one_mul]
  by_cases hb : b.isOne = true
  · rw [if_neg ha, if_pos hb, toRat_normalize, toRat_of_isOne hb, mul_one]
  · rw [if_neg ha, if_neg hb, toRat, toRat, toRat, neg_add, zpow_add₀ ten_ne_zero]
    push_cast
    ring

end Decimal

end PiScript
