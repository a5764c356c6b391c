import Mathlib.Data.Rat.Floor
import PiScript.Decimal.Numeral
import PiScript.Proofs.Decimal.Order

/-!
# Integer parts of decimals

`truncate` shifts the point and cuts off what is behind it. As long as the shift fits in a 32-bit
word, this is the integer part of the number, cut towards zero and held within a signed 64-bit word,
so it depends on the number alone and grows with it. A wider scale is shifted by its remainder
(`truncate_eq`), and then the word need not be the integer part of the number any more
(`truncate_of_wide_scale`).
-/

namespace PiScript

namespace Decimal

/-! ## Cutting towards zero -/

def towardsZero (x : ℚ) : Int :=
  if 0 ≤ x then ⌊x⌋ else ⌈x⌉

theorem towardsZero_intCast (n : Int) : towardsZero n = n := by
  unfold towardsZero
  split
  · exact Int.floor_intCast n
  · exact Int.ceil_intCast n

theorem towardsZero_div (n : Int) (k : Nat) : towardsZero ((n : ℚ) / k) = n.tdiv k := by
  unfold towardsZero
  by_cases hk : k = 0
  · subst hk
    simp
  have hpos : (0 : ℚ) < k := by exact_mod_cast Nat.pos_of_ne_zero hk
  by_cases hn : 0 ≤ n
  · have hdiv : 0 ≤ (n : ℚ) / k := div_nonneg (by exact_mod_cast hn) hpos.le
    rw [if_pos hdiv, Rat.floor_intCast_div_natCast, Int.tdiv_eq_ediv_of_nonneg hn]
  -- Below zero, the part is that of the negative with the sign turned.
  · have hdiv : ¬0 ≤ (n : ℚ) / k := by
      rw [not_le]
      exact div_neg_of_neg_of_pos (by exact_mod_cast Int.lt_of_not_ge hn) hpos
    have hneg : (-n).tdiv k = -n / k := Int.tdiv_eq_ediv_of_nonneg (by omega)
    rw [if_neg hdiv, Rat.ceil_intCast_div_natCast, ← hneg, Int.neg_tdiv, Int.neg_neg]

theorem towardsZero_mono {x y : ℚ} (h : x ≤ y) : towardsZero x ≤ towardsZero y := by
  unfold towardsZero
  by_cases hx : 0 ≤ x
  · rw [if_pos hx, if_pos (hx.trans h)]
    exact Int.floor_mono h
  by_cases hy : 0 ≤ y
  · have hneg : ⌈x⌉ ≤ 0 := Int.ceil_le.mpr (by exact_mod_cast (lt_of_not_ge hx).le)
    have hpos : 0 ≤ ⌊y⌋ := Int.floor_nonneg.mpr hy
    rw [if_neg hx, if_pos hy]
    exact hneg.trans hpos
  · rw [if_neg hx, if_neg hy]
    exact Int.ceil_mono h

theorem saturate_mono {m n : Int} (h : m ≤ n) : saturate m ≤ saturate n := by
  unfold saturate
  omega

/-! ## Shifting the point -/

/-- With its scale kept to 32 bits, every decimal is cut towards zero and saturated. -/
theorem truncate_eq (d : Decimal) :
    d.truncate =
      saturate (towardsZero (⟨d.unscaled, d.scale.sign * d.shiftPlaces⟩ : Decimal).toRat) := by
  unfold truncate
  congr 1
  by_cases hscale : 0 < d.scale
  · rw [if_pos hscale, Int.sign_eq_one_of_pos hscale, one_mul, ← towardsZero_div, toRat,
      zpow_neg, zpow_natCast, cast_tenPow, ← div_eq_mul_inv]
  -- A scale of zero shifts by nothing.
  have hpow : (10 : ℚ) ^ (-(d.scale.sign * d.shiftPlaces)) = 10 ^ d.shiftPlaces := by
    by_cases hzero : d.scale = 0
    · have hplaces : d.shiftPlaces = 0 := by
        rw [shiftPlaces, hzero]
        rfl
      rw [hplaces]
      simp
    · rw [Int.sign_eq_neg_one_of_neg (by omega), neg_mul, one_mul, neg_neg, zpow_natCast]
  rw [if_neg hscale, toRat, hpow, ← cast_tenPow, ← towardsZero_intCast (d.unscaled * _)]
  push_cast
  rfl

theorem truncate_of_narrow {d : Decimal} (h : d.scale.natAbs < 2 ^ 32) :
    d.truncate = saturate (towardsZero d.toRat) := by
  have hplaces : d.shiftPlaces = d.scale.natAbs := Nat.mod_eq_of_lt h
  rw [truncate_eq, hplaces, Int.sign_mul_natAbs]

/-- Truncation gives the integer part, cut towards zero and held within a signed 64-bit word, of the
decimal at its scale kept to 32 bits. If the scale has an absolute value below `2 ^ 32`, this is the
integer part of the number; it then depends on the number alone, and never falls when the number
grows. -/
theorem truncate_saturated_integer_part (d : Decimal) :
    d.truncate = max (-2 ^ 63)
      (min (towardsZero
        (⟨d.unscaled, d.scale.sign * (d.scale.natAbs % 2 ^ 32 : Nat)⟩ : Decimal).toRat)
        (2 ^ 63 - 1)) ∧
    (d.scale.natAbs < 2 ^ 32 →
      d.truncate = max (-2 ^ 63) (min (towardsZero d.toRat) (2 ^ 63 - 1)) ∧
      ∀ e : Decimal, e.scale.natAbs < 2 ^ 32 →
        (d.toRat = e.toRat → d.truncate = e.truncate) ∧
        (d.toRat ≤ e.toRat → d.truncate ≤ e.truncate)) := by
  refine ⟨truncate_eq d, fun hd => ⟨truncate_of_narrow hd, fun e he => ⟨fun h => ?_, fun h => ?_⟩⟩⟩
  · rw [truncate_of_narrow hd, truncate_of_narrow he, h]
  · rw [truncate_of_narrow hd, truncate_of_narrow he]
    exact saturate_mono (towardsZero_mono h)

/-- `-2.5` and `-2.50` are cut to `-2`, and `9.3E+19` is held at the largest word. -/
theorem truncate_negative_and_large :
    (⟨-25, 1⟩ : Decimal).truncate = max (-2 ^ 63) (min (-2) (2 ^ 63 - 1)) ∧
    (⟨-25, 1⟩ : Decimal).truncate = (⟨-250, 2⟩ : Decimal).truncate ∧
    (⟨-250, 2⟩ : Decimal).truncate ≤ (⟨93, -18⟩ : Decimal).truncate ∧
    (⟨93, -18⟩ : Decimal).truncate = 2 ^ 63 - 1 := by
  have hscales : (⟨-25, 1⟩ : Decimal).toRat = (⟨-250, 2⟩ : Decimal).toRat := by
    norm_num [toRat]
  have hle : (⟨-250, 2⟩ : Decimal).toRat ≤ (⟨93, -18⟩ : Decimal).toRat := by
    norm_num [toRat]
  have hpart : towardsZero (⟨-25, 1⟩ : Decimal).toRat = -2 := by
    have hnum : (⟨-25, 1⟩ : Decimal).toRat = ((-25 : Int) : ℚ) / (10 : Nat) := by
      norm_num [toRat]
    rw [hnum, towardsZero_div]
    rfl
  obtain ⟨hword, hothers⟩ := (truncate_saturated_integer_part ⟨-25, 1⟩).2 (by decide)
  have hmono := ((truncate_saturated_integer_part ⟨-250, 2⟩).2 (by decide)).2 ⟨93, -18⟩ (by decide)
  rw [hpart] at hword
  exact ⟨hword, (hothers ⟨-250, 2⟩ (by decide)).1 hscales, hmono.2 hle, rfl⟩

/-- A numeral can have a scale whose shift does not fit: `1.5e+4294967297` is truncated to `15`,
though its integer part lies far beyond the largest word. -/
theorem truncate_of_wide_scale :
    ofNumeral? "1.5e+4294967297".toList = some ⟨15, -4294967296⟩ ∧
    (⟨15, -4294967296⟩ : Decimal).truncate = 15 ∧
    max (-2 ^ 63) (min (towardsZero (⟨15, -4294967296⟩ : Decimal).toRat) (2 ^ 63 - 1)) =
      2 ^ 63 - 1 := by
  refine ⟨by decide +kernel, rfl, ?_⟩
  have hle : ((10 ^ 19 : Int) : ℚ) ≤ (⟨15, -4294967296⟩ : Decimal).toRat := by
    rw [toRat]
    calc
      ((10 ^ 19 : Int) : ℚ) = (10 : ℚ) ^ (19 : Int) := by norm_num
      _ ≤ (10 : ℚ) ^ (-(-4294967296) : Int) := zpow_le_zpow_right₀ (by norm_num) (by decide)
      _ ≤ ((15 : Int) : ℚ) * (10 : ℚ) ^ (-(-4294967296) : Int) :=
        le_mul_of_one_le_left (ten_zpow_pos _).le (by norm_num)
  have hpart := towardsZero_mono hle
  rw [towardsZero_intCast] at hpart
  omega

end Decimal

end PiScript
