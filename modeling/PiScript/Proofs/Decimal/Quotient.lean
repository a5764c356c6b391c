import Mathlib.Data.Nat.Prime.Basic
import Mathlib.Data.Rat.Lemmas
import Mathlib.Tactic.FieldSimp
import PiScript.Decimal.Division
import PiScript.Proofs.Decimal.Order

/-!
# Quotients of decimals

Division only looks at numbers. It fails exactly when the quotient of the two numbers does not
exist or is not the number of any decimal, and what it returns otherwise stands for that quotient
(`divide_toRat`). The scales of the operands decide how the result is written, never whether there
is one.
-/

namespace PiScript

namespace Decimal

/-! ## Numbers that decimals stand for -/

/-- The rational number `x` has a decimal. -/
def Terminates (x : ℚ) : Prop :=
  ∃ d : Decimal, d.toRat = x

/-- A fraction whose denominator fills up to a power of ten is written at that many places. -/
theorem toRat_filled {den c k : Nat} (h : den * c = 10 ^ k) (num s : Int) :
    (⟨num * c, s + k⟩ : Decimal).toRat = (num : ℚ) / den * 10 ^ (-s) := by
  have hcast : (den : ℚ) * c = 10 ^ k := by exact_mod_cast h
  have hne : (den : ℚ) * c ≠ 0 := by
    rw [hcast]
    exact pow_ne_zero k ten_ne_zero
  have hden : (den : ℚ) ≠ 0 := left_ne_zero_of_mul hne
  have hc : (c : ℚ) ≠ 0 := right_ne_zero_of_mul hne
  rw [toRat, neg_add, zpow_add₀ ten_ne_zero, zpow_neg 10 (k : Int), zpow_natCast, ← hcast]
  push_cast
  field_simp

theorem terminates_iff_den_dvd (x : ℚ) : Terminates x ↔ ∃ j : Nat, x.den ∣ 10 ^ j := by
  constructor
  · rintro ⟨d, rfl⟩
    use d.scale.toNat
    have hscale : d.scale ≤ (d.scale.toNat : Int) := Int.self_le_toNat d.scale
    have hden := Rat.den_dvd (d.unscaledAt d.scale.toNat) ((10 ^ d.scale.toNat : Nat) : Int)
    rw [toRat_eq_unscaledAt d hscale, zpow_neg, zpow_natCast, ← div_eq_mul_inv]
    rw [Rat.divInt_eq_div] at hden
    push_cast at hden
    exact_mod_cast hden
  · rintro ⟨j, c, hc⟩
    use ⟨x.num * c, 0 + j⟩
    rw [toRat_filled hc.symm, neg_zero, zpow_zero, mul_one, Rat.num_div_den]

/-- Moving the point neither makes nor breaks a decimal. -/
theorem terminates_mul_ten_zpow (x : ℚ) (e : Int) : Terminates (x * 10 ^ e) ↔ Terminates x := by
  have hshift : ∀ (y : ℚ) (e : Int), Terminates y → Terminates (y * 10 ^ e) := by
    rintro y e ⟨d, rfl⟩
    refine ⟨⟨d.unscaled, d.scale - e⟩, ?_⟩
    rw [toRat, toRat, mul_assoc, ← zpow_add₀ ten_ne_zero]
    congr 2
    ring
  constructor
  · intro h
    have := hshift _ (-e) h
    rwa [mul_assoc, ← zpow_add₀ ten_ne_zero, add_neg_cancel, zpow_zero, mul_one] at this
  · exact hshift x e

/-! ## Factors of the denominator -/

theorem factorOutFrom_spec {p : Nat} (hp : 1 < p) (k : Nat) {n : Nat} (hn : 0 < n) :
    ∃ j m, factorOutFrom p k n = (k + j, m) ∧ n = p ^ j * m ∧ ¬p ∣ m := by
  fun_induction factorOutFrom p k n with
  | case1 k n h ih =>
    have hdvd : p ∣ n := Nat.dvd_of_mod_eq_zero h.2.2
    obtain ⟨j, m, heq, hm, hnot⟩ := ih (Nat.div_pos (Nat.le_of_dvd hn hdvd) (by omega))
    refine ⟨j + 1, m, ?_, ?_, hnot⟩
    · rw [heq, Nat.add_assoc, Nat.add_comm 1 j]
    · rw [pow_succ, mul_right_comm, ← hm, Nat.div_mul_cancel hdvd]
  | case2 k n h =>
    refine ⟨0, n, rfl, by rw [pow_zero, one_mul], ?_⟩
    intro hdvd
    exact h ⟨hp, hn, Nat.mod_eq_zero_of_dvd hdvd⟩

theorem factorOut_spec {p n : Nat} (hp : 1 < p) (hn : 0 < n) :
    n = p ^ (factorOut p n).1 * (factorOut p n).2 ∧ ¬p ∣ (factorOut p n).2 := by
  obtain ⟨j, m, heq, hm, hnot⟩ := factorOutFrom_spec hp 0 hn
  rw [factorOut, heq, Nat.zero_add]
  exact ⟨hm, hnot⟩

/-- The exponent of two in `n`. -/
def twos (n : Nat) : Nat :=
  (factorOut 2 n).1

/-- The exponent of five in `n`. -/
def fives (n : Nat) : Nat :=
  (factorOut 5 (factorOut 2 n).2).1

/-- What is left of `n` without its factors of two and five. -/
def cofactor (n : Nat) : Nat :=
  (factorOut 5 (factorOut 2 n).2).2

theorem eq_twos_fives_cofactor {n : Nat} (hn : 0 < n) :
    n = 2 ^ twos n * (5 ^ fives n * cofactor n) ∧ Nat.Coprime (cofactor n) 10 := by
  obtain ⟨htwo, hodd⟩ := factorOut_spec (p := 2) (by decide) hn
  have hpos : 0 < (factorOut 2 n).2 := by
    apply Nat.pos_of_ne_zero
    intro h
    exact hodd (h ▸ Nat.dvd_zero 2)
  obtain ⟨hfive, hrest⟩ := factorOut_spec (p := 5) (by decide) hpos
  refine ⟨?_, ?_⟩
  · rw [fives, cofactor, ← hfive]
    exact htwo
  -- The cofactor divides the odd part, which has lost its twos before.
  · have hodd' : ¬2 ∣ cofactor n := by
      intro h
      rw [hfive] at hodd
      exact hodd (Dvd.dvd.mul_left h _)
    have h2 : Nat.Coprime (cofactor n) 2 :=
      ((Nat.Prime.coprime_iff_not_dvd Nat.prime_two).mpr hodd').symm
    have h5 : Nat.Coprime (cofactor n) 5 :=
      ((Nat.Prime.coprime_iff_not_dvd Nat.prime_five).mpr hrest).symm
    exact Nat.Coprime.mul_right h2 h5

theorem cofactor_eq_one_iff {n : Nat} (hn : 0 < n) :
    cofactor n = 1 ↔ ∃ j, n ∣ 10 ^ j := by
  obtain ⟨heq, hcop⟩ := eq_twos_fives_cofactor hn
  constructor
  · intro hone
    refine ⟨max (twos n) (fives n), ?_⟩
    rw [hone, mul_one] at heq
    calc
      n = 2 ^ twos n * 5 ^ fives n := heq
      _ ∣ 2 ^ max (twos n) (fives n) * 5 ^ max (twos n) (fives n) :=
        mul_dvd_mul (pow_dvd_pow 2 (le_max_left _ _)) (pow_dvd_pow 5 (le_max_right _ _))
      _ = 10 ^ max (twos n) (fives n) := (mul_pow 2 5 _).symm
  · rintro ⟨j, hdvd⟩
    have hdvd' : cofactor n ∣ 10 ^ j := by
      refine dvd_trans ?_ hdvd
      nth_rewrite 2 [heq]
      exact (dvd_mul_left _ _).mul_left _
    exact Nat.Coprime.eq_one_of_dvd (hcop.pow_right j) hdvd'

/-! ## The reduced quotient -/

/-- The numerator of the unscaled quotient in lowest terms. -/
def reducedNum (a b : Decimal) : Int :=
  a.unscaled / Int.gcd a.unscaled b.unscaled * b.unscaled.sign

/-- The denominator of the unscaled quotient in lowest terms. -/
def reducedDen (a b : Decimal) : Nat :=
  b.unscaled.natAbs / Int.gcd a.unscaled b.unscaled

theorem quotient_of_ne_zero {a b : Decimal} (hb : b.unscaled ≠ 0) :
    quotient a b =
      if cofactor (reducedDen a b) = 1 then
        let k := max (twos (reducedDen a b)) (fives (reducedDen a b))
        .ok ⟨reducedNum a b * (Nat.pow 2 (k - twos (reducedDen a b)) *
          Nat.pow 5 (k - fives (reducedDen a b))), preferredScale a b + k⟩
      else .error .nonTerminating := by
  rw [quotient, if_neg hb]
  rfl

section Reduced

variable {a b : Decimal} (hb : b.unscaled ≠ 0)

include hb

theorem reducedDen_pos : 0 < reducedDen a b := by
  have hgcd : 0 < Int.gcd a.unscaled b.unscaled := Int.gcd_pos_of_ne_zero_right _ hb
  have hdvd : Int.gcd a.unscaled b.unscaled ∣ b.unscaled.natAbs := Nat.gcd_dvd_right _ _
  exact Nat.div_pos (Nat.le_of_dvd (Int.natAbs_pos.mpr hb) hdvd) hgcd

theorem coprime_reduced : (reducedNum a b).natAbs.Coprime (reducedDen a b) := by
  have hgcd : 0 < Int.gcd a.unscaled b.unscaled := Int.gcd_pos_of_ne_zero_right _ hb
  have hnum : (reducedNum a b).natAbs = a.unscaled.natAbs / Int.gcd a.unscaled b.unscaled := by
    rw [reducedNum, Int.natAbs_mul, Int.natAbs_sign_of_ne_zero hb, mul_one,
      Int.natAbs_ediv_of_dvd (Int.gcd_dvd_left ..), Int.natAbs_natCast]
  rw [hnum, reducedDen]
  exact Nat.coprime_div_gcd_div_gcd hgcd

/-- Reducing a fraction keeps its value; the sign moves into the numerator. -/
theorem reduced_eq_div :
    (reducedNum a b : ℚ) / reducedDen a b = (a.unscaled : ℚ) / b.unscaled := by
  have hgcd : (Int.gcd a.unscaled b.unscaled : Int) ≠ 0 := by
    exact_mod_cast (Int.gcd_pos_of_ne_zero_right _ hb).ne'
  have hden : (reducedDen a b : Int) * Int.gcd a.unscaled b.unscaled = b.unscaled.natAbs := by
    exact_mod_cast Nat.div_mul_cancel (Nat.gcd_dvd_right a.unscaled.natAbs b.unscaled.natAbs)
  have hnum : a.unscaled / Int.gcd a.unscaled b.unscaled * Int.gcd a.unscaled b.unscaled =
      a.unscaled :=
    Int.ediv_mul_cancel (Int.gcd_dvd_left ..)
  -- Multiplied across, and by the common divisor, so that nothing is divided any more.
  have hcross : reducedNum a b * b.unscaled = a.unscaled * reducedDen a b := by
    apply mul_right_cancel₀ hgcd
    calc
      reducedNum a b * b.unscaled * Int.gcd a.unscaled b.unscaled
          = a.unscaled / Int.gcd a.unscaled b.unscaled * Int.gcd a.unscaled b.unscaled *
              (b.unscaled.sign * b.unscaled) := by rw [reducedNum]; ring
      _ = a.unscaled * (reducedDen a b * Int.gcd a.unscaled b.unscaled) := by
        rw [hnum, hden, Int.sign_mul_self_eq_natAbs]
      _ = a.unscaled * reducedDen a b * Int.gcd a.unscaled b.unscaled := by ring
  rw [div_eq_div_iff (by exact_mod_cast (reducedDen_pos hb).ne') (by exact_mod_cast hb)]
  exact_mod_cast hcross

theorem toRat_div_toRat :
    a.toRat / b.toRat = (reducedNum a b : ℚ) / reducedDen a b * 10 ^ (-preferredScale a b) := by
  rw [reduced_eq_div hb, toRat, toRat, preferredScale, mul_div_mul_comm, ← zpow_sub₀ ten_ne_zero]
  congr 2
  ring

theorem den_reduced : ((reducedNum a b : ℚ) / reducedDen a b).den = reducedDen a b := by
  have hden := Rat.den_div_eq_of_coprime (a := reducedNum a b) (b := reducedDen a b)
    (by exact_mod_cast reducedDen_pos hb) (coprime_reduced hb)
  exact_mod_cast hden

theorem terminates_div_iff : Terminates (a.toRat / b.toRat) ↔ cofactor (reducedDen a b) = 1 := by
  rw [toRat_div_toRat hb, terminates_mul_ten_zpow, terminates_iff_den_dvd, den_reduced hb,
    cofactor_eq_one_iff (reducedDen_pos hb)]

theorem toRat_quotient_filled (hone : cofactor (reducedDen a b) = 1) {k : Nat}
    (htwos : twos (reducedDen a b) ≤ k) (hfives : fives (reducedDen a b) ≤ k) :
    (⟨reducedNum a b * (Nat.pow 2 (k - twos (reducedDen a b)) *
      Nat.pow 5 (k - fives (reducedDen a b))), preferredScale a b + k⟩ : Decimal).toRat =
      a.toRat / b.toRat := by
  have hden : reducedDen a b = 2 ^ twos (reducedDen a b) * 5 ^ fives (reducedDen a b) := by
    have hfactors := (eq_twos_fives_cofactor (reducedDen_pos (a := a) hb)).1
    rwa [hone, mul_one] at hfactors
  have hfill : reducedDen a b * (Nat.pow 2 (k - twos (reducedDen a b)) *
      Nat.pow 5 (k - fives (reducedDen a b))) = 10 ^ k := by
    nth_rewrite 1 [hden]
    show 2 ^ _ * 5 ^ _ * (2 ^ _ * 5 ^ _) = (2 * 5) ^ k
    rw [mul_mul_mul_comm, ← pow_add, ← pow_add, Nat.add_sub_cancel' htwos,
      Nat.add_sub_cancel' hfives, mul_pow]
  rw [toRat_div_toRat hb, ← toRat_filled hfill]
  push_cast
  rfl

end Reduced

/-! ## Division -/

theorem toRat_dropZerosTo (preferred : Int) (d : Decimal) :
    (dropZerosTo preferred d).toRat = d.toRat := by
  fun_induction dropZerosTo preferred d with
  | case1 d h ih => rw [ih, toRat_div_ten h.2.2]
  | case2 d h => rfl

open Classical in
/-- The quotient of two numbers as far as decimals can express it. -/
noncomputable def exactQuotient (x y : ℚ) : Except DivisionError ℚ :=
  if y = 0 then .error (if x = 0 then .undefined else .byZero)
  else if Terminates (x / y) then .ok (x / y)
  else .error .nonTerminating

theorem mul_of_exactQuotient {x y z : ℚ} (h : exactQuotient x y = .ok z) : z * y = x := by
  unfold exactQuotient at h
  by_cases hy : y = 0
  · rw [if_pos hy] at h
    cases h
  · rw [if_neg hy] at h
    split at h
    · cases h
      exact div_mul_cancel₀ x hy
    · cases h

/-- Whether decimals have a quotient, and which, depends on their numbers only. -/
theorem divide_toRat (a b : Decimal) :
    (a.divide b).map toRat = exactQuotient a.toRat b.toRat := by
  unfold exactQuotient
  by_cases hb : b.unscaled = 0
  · rw [if_pos ((toRat_eq_zero_iff b).mpr hb), divide, quotient, if_pos hb]
    by_cases ha : a.unscaled = 0
    · rw [if_pos ha, if_pos ((toRat_eq_zero_iff a).mpr ha)]
      rfl
    · rw [if_neg ha, if_neg (mt (toRat_eq_zero_iff a).mp ha)]
      rfl
  rw [if_neg (mt (toRat_eq_zero_iff b).mp hb), divide, quotient_of_ne_zero hb]
  by_cases hone : cofactor (reducedDen a b) = 1
  · rw [if_pos hone, if_pos ((terminates_div_iff hb).mpr hone)]
    show Except.ok (toRat (dropZerosTo _ _)) = _
    rw [toRat_dropZerosTo, toRat_quotient_filled hb hone (le_max_left _ _) (le_max_right _ _)]
  · rw [if_neg hone, if_neg (mt (terminates_div_iff hb).mp hone)]
    rfl

end Decimal

end PiScript
