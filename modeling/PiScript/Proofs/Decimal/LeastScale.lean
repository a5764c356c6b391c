import PiScript.Error
import PiScript.Proofs.Decimal.Quotient

/-!
# The scale of a quotient

A number can be written at scale `s` if it is an integer once its point is moved `s` places to the
right. A number that can be written at some scale can be written at all larger ones, and from a
given scale upwards there is a smallest one that can hold it. Division returns the quotient at
exactly that scale, counted from the difference of the operands' scales
(`divide_exact_at_least_scale`). A quotient at the least scale ends in no zero that could be given
up (`division_drops_no_zeros`).
-/

namespace PiScript

namespace Decimal

/-- The scales from `preferred` upwards at which the number `x` can be written. -/
def scalesFrom (preferred : Int) (x : ℚ) : Set Int :=
  {s | preferred ≤ s ∧ ∃ n : Int, x * 10 ^ s = n}

theorem toRat_mul_scale (d : Decimal) : d.toRat * 10 ^ d.scale = d.unscaled := by
  rw [toRat, mul_assoc, ← zpow_add₀ ten_ne_zero, neg_add_cancel, zpow_zero, mul_one]

theorem scale_mem_scalesFrom {preferred : Int} {d : Decimal} (h : preferred ≤ d.scale) :
    d.scale ∈ scalesFrom preferred d.toRat :=
  ⟨h, d.unscaled, d.toRat_mul_scale⟩

/-- Moving the point of a fraction by `k` places gives an integer if the denominator in lowest terms
divides the power of ten. -/
theorem exists_int_mul_ten_pow_iff (x : ℚ) (k : Nat) :
    (∃ n : Int, x * 10 ^ k = n) ↔ x.den ∣ 10 ^ k := by
  constructor
  · rintro ⟨n, hn⟩
    have hx : x = (n : ℚ) / ((10 ^ k : Nat) : Int) := by
      push_cast
      rw [eq_div_iff (pow_ne_zero k ten_ne_zero), hn]
    have hden := Rat.den_dvd n ((10 ^ k : Nat) : Int)
    rw [Rat.divInt_eq_div, ← hx] at hden
    exact_mod_cast hden
  · rintro ⟨c, hc⟩
    have hcast : (10 : ℚ) ^ k = x.den * c := by exact_mod_cast hc
    refine ⟨x.num * c, ?_⟩
    push_cast
    rw [hcast, ← mul_assoc, Rat.mul_den_eq_num]

/-- A finite expansion is one with finitely many digits behind the point. -/
theorem terminates_iff_exists_places (x : ℚ) :
    Terminates x ↔ ∃ (k : Nat) (n : Int), x * 10 ^ k = n := by
  rw [terminates_iff_den_dvd]
  exact exists_congr fun k => (exists_int_mul_ten_pow_iff x k).symm

/-! ## Powers of ten -/

theorem two_pow_twos_dvd {n : Nat} (hn : 0 < n) : 2 ^ twos n ∣ n :=
  ⟨_, (eq_twos_fives_cofactor hn).1⟩

theorem five_pow_fives_dvd {n : Nat} (hn : 0 < n) : 5 ^ fives n ∣ n := by
  have hfactors := (eq_twos_fives_cofactor hn).1
  rw [mul_left_comm] at hfactors
  exact ⟨_, hfactors⟩

/-- A number without further prime factors divides the powers of ten that hold its twos and its
fives. -/
theorem dvd_ten_pow_iff {n : Nat} (hn : 0 < n) (hone : cofactor n = 1) (k : Nat) :
    n ∣ 10 ^ k ↔ max (twos n) (fives n) ≤ k := by
  have hten : (10 : Nat) ^ k = 2 ^ k * 5 ^ k := mul_pow 2 5 k
  rw [max_le_iff, hten]
  constructor
  · intro h
    have htwo : 2 ^ twos n ∣ 2 ^ k * 5 ^ k := (two_pow_twos_dvd hn).trans h
    have hfive : 5 ^ fives n ∣ 2 ^ k * 5 ^ k := (five_pow_fives_dvd hn).trans h
    -- Powers of two and of five have no factor in common.
    have hcop : ∀ i j, Nat.Coprime (2 ^ i) (5 ^ j) := fun i j => Nat.Coprime.pow i j (by decide)
    refine ⟨?_, ?_⟩
    · exact (Nat.pow_dvd_pow_iff_le_right (by decide)).mp ((hcop _ k).dvd_of_dvd_mul_right htwo)
    · exact (Nat.pow_dvd_pow_iff_le_right (by decide)).mp
        ((hcop k _).symm.dvd_of_dvd_mul_left hfive)
  · rintro ⟨htwo, hfive⟩
    have hfactors := (eq_twos_fives_cofactor hn).1
    rw [hone, mul_one] at hfactors
    rw [hfactors]
    exact mul_dvd_mul (pow_dvd_pow 2 htwo) (pow_dvd_pow 5 hfive)

/-! ## Quotients -/

section Quotients

variable {a b : Decimal} (hb : b.unscaled ≠ 0)

include hb

theorem add_mem_scalesFrom_iff (k : Nat) :
    preferredScale a b + k ∈ scalesFrom (preferredScale a b) (a.toRat / b.toRat) ↔
      reducedDen a b ∣ 10 ^ k := by
  have hmove : a.toRat / b.toRat * 10 ^ (preferredScale a b + k) =
      (reducedNum a b : ℚ) / reducedDen a b * 10 ^ k := by
    rw [toRat_div_toRat hb, mul_assoc, ← zpow_add₀ ten_ne_zero, neg_add_cancel_left, zpow_natCast]
  show _ ∧ _ ↔ _
  rw [hmove, exists_int_mul_ten_pow_iff, den_reduced hb]
  exact and_iff_right (by omega)

/-- The least scale of a quotient lies as many places above the preferred one as its denominator has
twos or fives, whichever are more. -/
theorem isLeast_scalesFrom (hone : cofactor (reducedDen a b) = 1) :
    IsLeast (scalesFrom (preferredScale a b) (a.toRat / b.toRat))
      (preferredScale a b + (max (twos (reducedDen a b)) (fives (reducedDen a b)) : Nat)) := by
  have hdvd := dvd_ten_pow_iff (reducedDen_pos (a := a) hb) hone
  constructor
  · rw [add_mem_scalesFrom_iff hb, hdvd]
  · intro s hs
    -- A scale from the preferred one upwards lies some number of places above it.
    obtain ⟨k, rfl⟩ := Int.le.dest hs.1
    rw [add_mem_scalesFrom_iff hb, hdvd] at hs
    exact Int.add_le_add_left (Int.ofNat_le.mpr hs) _

end Quotients

/-! ## Division -/

theorem ne_zero_of_divide {a b q : Decimal} (h : a.divide b = .ok q) : b.toRat ≠ 0 := by
  intro hb
  rw [divide, quotient, if_pos ((toRat_eq_zero_iff b).mp hb)] at h
  cases h

theorem toRat_of_divide {a b q : Decimal} (h : a.divide b = .ok q) :
    q.toRat = a.toRat / b.toRat := by
  have hnumber := divide_toRat a b
  rw [h] at hnumber
  exact (eq_div_of_mul_eq (ne_zero_of_divide h) (mul_of_exactQuotient hnumber.symm))

theorem toRat_of_quotient {a b d : Decimal} (h : quotient a b = .ok d) :
    d.toRat = a.toRat / b.toRat := by
  have hdivide : a.divide b = .ok (dropZerosTo (preferredScale a b) d) := by
    rw [divide, h]
    rfl
  rw [← toRat_of_divide hdivide, toRat_dropZerosTo]

theorem isLeast_scale_quotient {a b d : Decimal} (h : quotient a b = .ok d) :
    IsLeast (scalesFrom (preferredScale a b) (a.toRat / b.toRat)) d.scale := by
  by_cases hb : b.unscaled = 0
  · rw [quotient, if_pos hb] at h
    cases h
  · rw [quotient_of_ne_zero hb] at h
    by_cases hone : cofactor (reducedDen a b) = 1
    · rw [if_pos hone] at h
      obtain rfl := Except.ok.inj h
      exact isLeast_scalesFrom hb hone
    · rw [if_neg hone] at h
      cases h

/-- A decimal at the least scale that can hold it has no zero to give up: without it the same number
would be written one place shorter. -/
theorem no_zero_to_drop {preferred : Int} {d : Decimal}
    (h : IsLeast (scalesFrom preferred d.toRat) d.scale) :
    ¬(preferred < d.scale ∧ d.unscaled ≠ 0 ∧ d.unscaled % 10 = 0) := by
  intro hdrop
  have hnumber : (⟨d.unscaled / 10, d.scale - 1⟩ : Decimal).toRat = d.toRat :=
    toRat_div_ten hdrop.2.2 d.scale
  have hshorter : d.scale - 1 ∈ scalesFrom preferred d.toRat := by
    rw [← hnumber]
    apply scale_mem_scalesFrom (d := ⟨_, _⟩)
    show preferred ≤ d.scale - 1
    omega
  have hle : d.scale ≤ d.scale - 1 := h.2 hshorter
  omega

theorem no_zero_to_drop_of_quotient {a b d : Decimal} (h : quotient a b = .ok d) :
    ¬(preferredScale a b < d.scale ∧ d.unscaled ≠ 0 ∧ d.unscaled % 10 = 0) := by
  apply no_zero_to_drop
  rw [toRat_of_quotient h]
  exact isLeast_scale_quotient h

theorem divide_eq_quotient (a b : Decimal) : a.divide b = quotient a b := by
  rw [divide]
  cases h : quotient a b with
  | error e => rfl
  | ok d =>
    show Except.ok (dropZerosTo (preferredScale a b) d) = .ok d
    rw [dropZerosTo, dif_neg (no_zero_to_drop_of_quotient h)]

/-- Whatever division returns is the quotient at the least scale that can hold it. -/
theorem isLeast_scale_divide {a b q : Decimal} (h : a.divide b = .ok q) :
    IsLeast (scalesFrom (preferredScale a b) (a.toRat / b.toRat)) q.scale := by
  rw [divide_eq_quotient] at h
  exact isLeast_scale_quotient h

/-- Zero can be written at every scale, so its quotients have the preferred one. -/
theorem divide_of_unscaled_eq_zero {a b q : Decimal} (ha : a.unscaled = 0)
    (h : a.divide b = .ok q) : q = ⟨0, preferredScale a b⟩ := by
  have hleast := isLeast_scale_divide h
  have hnumber := toRat_of_divide h
  rw [(toRat_eq_zero_iff a).mpr ha, zero_div] at hleast hnumber
  have hpreferred : preferredScale a b ∈ scalesFrom (preferredScale a b) 0 :=
    ⟨le_refl _, 0, by rw [zero_mul, Int.cast_zero]⟩
  have hunscaled : q.unscaled = 0 := (toRat_eq_zero_iff q).mp hnumber
  have hscale : q.scale = preferredScale a b := le_antisymm (hleast.2 hpreferred) hleast.1.1
  rw [← hunscaled, ← hscale]

/-- Division by zero is an arithmetic error. Any other division gives the exact quotient if that has
a finite expansion, and the error of a non-terminating one if not. The scale of a quotient is the
least one from the difference of the operands' scales upwards at which it can be written; so zero
divided by anything stays at that difference. -/
theorem divide_exact_at_least_scale (a b : Decimal) :
    (b.unscaled = 0 → ∃ e, a.divide b = .error e ∧ (Cause.division e).kind = .arithmetic) ∧
    (b.unscaled ≠ 0 →
      ((∃ q, a.divide b = .ok q) ↔ ∃ (k : Nat) (n : Int), a.toRat / b.toRat * 10 ^ k = n) ∧
      ((¬∃ q, a.divide b = .ok q) → a.divide b = .error .nonTerminating ∧
        (Cause.division .nonTerminating).kind = .arithmetic)) ∧
    (∀ q, a.divide b = .ok q →
      q.toRat = a.toRat / b.toRat ∧
      IsLeast {s : Int | a.scale - b.scale ≤ s ∧ ∃ n : Int, a.toRat / b.toRat * 10 ^ s = n}
        q.scale ∧
      (a.unscaled = 0 → q = ⟨0, a.scale - b.scale⟩)) := by
  refine ⟨?_, ?_, ?_⟩
  · intro hb
    rw [divide, quotient, if_pos hb]
    exact ⟨_, rfl, rfl⟩
  · intro hb
    rw [← terminates_iff_exists_places, terminates_div_iff hb, divide, quotient_of_ne_zero hb]
    -- The quotient terminates exactly if its denominator has no other prime factors.
    by_cases hone : cofactor (reducedDen a b) = 1
    · rw [if_pos hone]
      exact ⟨iff_of_true ⟨_, rfl⟩ hone, fun hnone => absurd ⟨_, rfl⟩ hnone⟩
    · rw [if_neg hone]
      refine ⟨iff_of_false ?_ hone, fun _ => ⟨rfl, rfl⟩⟩
      rintro ⟨q, hq⟩
      cases hq
  · intro q h
    exact ⟨toRat_of_divide h, isLeast_scale_divide h, fun ha => divide_of_unscaled_eq_zero ha h⟩

/-- `1.5 / 4.0` takes three places, `1 / 3` takes no number of them, and zero keeps the scale. -/
theorem quotients_at_least_scale :
    IsLeast {s : Int | 1 - 1 ≤ s ∧
      ∃ n : Int, (⟨15, 1⟩ : Decimal).toRat / (⟨40, 1⟩ : Decimal).toRat * 10 ^ s = n} 3 ∧
    (¬∃ (k : Nat) (n : Int), (⟨1, 0⟩ : Decimal).toRat / (⟨3, 0⟩ : Decimal).toRat * 10 ^ k = n) ∧
    (⟨0, 2⟩ : Decimal).divide ⟨7, 5⟩ = .ok ⟨0, -3⟩ ∧
    ∃ e, (⟨1, 0⟩ : Decimal).divide ⟨0, 3⟩ = .error e ∧ (Cause.division e).kind = .arithmetic := by
  have hdivide : (⟨15, 1⟩ : Decimal).divide ⟨40, 1⟩ = .ok ⟨375, 3⟩ := by decide +kernel
  have hthird : (⟨1, 0⟩ : Decimal).divide ⟨3, 0⟩ = .error .nonTerminating := by decide +kernel
  obtain ⟨q, hzero⟩ : ∃ q, (⟨0, 2⟩ : Decimal).divide ⟨7, 5⟩ = .ok q :=
    ((divide_exact_at_least_scale ⟨0, 2⟩ ⟨7, 5⟩).2.1 (by decide)).1.mpr ⟨0, 0, by norm_num [toRat]⟩
  refine ⟨((divide_exact_at_least_scale _ _).2.2 _ hdivide).2.1, ?_, ?_,
    (divide_exact_at_least_scale ⟨1, 0⟩ ⟨0, 3⟩).1 rfl⟩
  · rw [← ((divide_exact_at_least_scale ⟨1, 0⟩ ⟨3, 0⟩).2.1 (by decide)).1, hthird]
    rintro ⟨q, hq⟩
    cases hq
  · rw [hzero, ((divide_exact_at_least_scale ⟨0, 2⟩ ⟨7, 5⟩).2.2 q hzero).2.2 rfl]
    rfl

/-- Division comes to giving up zeros exactly if the divisor is not zero and the quotient has a
finite expansion. There its scale is the preferred one, or its integer is zero or no multiple of
ten: nothing is given up, and division is the same without that step. -/
theorem division_drops_no_zeros (a b : Decimal) :
    ((∃ d, quotient a b = .ok d) ↔ b.unscaled ≠ 0 ∧ Terminates (a.toRat / b.toRat)) ∧
    (∀ d, quotient a b = .ok d →
      d.scale = a.scale - b.scale ∨ d.unscaled = 0 ∨ ¬10 ∣ d.unscaled) ∧
    a.divide b = quotient a b := by
  refine ⟨?_, ?_, divide_eq_quotient a b⟩
  · by_cases hb : b.unscaled = 0
    · rw [quotient, if_pos hb]
      simp [hb]
    · rw [terminates_div_iff hb, quotient_of_ne_zero hb]
      by_cases hone : cofactor (reducedDen a b) = 1
      · simp [hone, hb]
      · simp [hone]
  · intro d h
    have hstay := no_zero_to_drop_of_quotient h
    have hscale : preferredScale a b ≤ d.scale := (isLeast_scale_quotient h).1.1
    have hpreferred : preferredScale a b = a.scale - b.scale := rfl
    omega

/-- `3.0 / 8.0` takes three places and ends in no zero; `60.0 / 3` ends in zeros, but at the scale
of its dividend. -/
theorem quotients_end_in_no_zeros_to_drop :
    (quotient ⟨30, 1⟩ ⟨80, 1⟩ = .ok ⟨375, 3⟩ ∧
      ((3 : Int) = 1 - 1 ∨ (375 : Int) = 0 ∨ ¬(10 : Int) ∣ 375)) ∧
    (quotient ⟨600, 1⟩ ⟨3, 0⟩ = .ok ⟨200, 1⟩ ∧
      ((1 : Int) = 1 - 0 ∨ (200 : Int) = 0 ∨ ¬(10 : Int) ∣ 200)) := by
  have heighths : quotient ⟨30, 1⟩ ⟨80, 1⟩ = .ok ⟨375, 3⟩ := by decide +kernel
  have hthirds : quotient ⟨600, 1⟩ ⟨3, 0⟩ = .ok ⟨200, 1⟩ := by decide +kernel
  exact ⟨⟨heighths, (division_drops_no_zeros _ _).2.1 _ heighths⟩,
    hthirds, (division_drops_no_zeros _ _).2.1 _ hthirds⟩

end Decimal

end PiScript
