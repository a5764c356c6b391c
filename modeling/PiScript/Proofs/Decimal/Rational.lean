import Mathlib.Algebra.Order.Field.Rat
import Mathlib.Tactic.Ring
import PiScript.Decimal.Basic

/-!
# Decimals as rational numbers

The number that a decimal stands for. Decimals at different scales may stand for the same number,
and extending the scale of a decimal never changes it.
-/

namespace PiScript

namespace Decimal

def toRat (d : Decimal) : ℚ :=
  d.unscaled * (10 : ℚ) ^ (-d.scale)

theorem cast_tenPow (n : Nat) : ((tenPow n : Nat) : ℚ) = (10 : ℚ) ^ n := by
  show ((10 ^ n : Nat) : ℚ) = _
  push_cast
  rfl

theorem toRat_extend (d : Decimal) (places : Nat) : (d.extend places).toRat = d.toRat := by
  have hten : (10 : ℚ) ≠ 0 := by norm_num
  have hsum : (10 : ℚ) ^ places * (10 : ℚ) ^ (-(d.scale + places)) = (10 : ℚ) ^ (-d.scale) := by
    rw [← zpow_natCast, ← zpow_add₀ hten]
    congr 1
    ring
  unfold toRat extend
  push_cast
  rw [cast_tenPow, mul_assoc, hsum]

end Decimal

end PiScript
