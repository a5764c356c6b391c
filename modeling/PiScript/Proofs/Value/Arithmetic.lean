import PiScript.Proofs.Decimal.Quotient
import PiScript.Proofs.Statement.Source
import PiScript.Value.Apply

/-!
# Operators on numbers

Between numbers the operators are exact arithmetic and exact comparison of rationals. What they
return, and whether they return anything, therefore depends on the numbers and not on the scales at
which these are written: `1.50` and `1.5` can stand for each other everywhere.
-/

namespace PiScript

/-- Both applications return the same value, numbers compared as numbers, or both fail alike. -/
inductive SameResult : Except Cause Value → Except Cause Value → Prop where
  | ok {v w : Value} (h : v.Same w) : SameResult (.ok v) (.ok w)
  | error (c : Cause) : SameResult (.error c) (.error c)

namespace Operator

/-! ## Arithmetic -/

theorem apply_add_numbers (a b : Decimal) :
    ∃ c, Operator.add.apply (.number a) (.number b) = .ok (.number c) ∧
      c.toRat = a.toRat + b.toRat :=
  ⟨a.add b, rfl, Decimal.toRat_add a b⟩

theorem apply_subtract_numbers (a b : Decimal) :
    ∃ c, Operator.subtract.apply (.number a) (.number b) = .ok (.number c) ∧
      c.toRat = a.toRat - b.toRat :=
  ⟨a.sub b, rfl, Decimal.toRat_sub a b⟩

theorem apply_multiply_numbers (a b : Decimal) :
    ∃ c, Operator.multiply.apply (.number a) (.number b) = .ok (.number c) ∧
      c.toRat = a.toRat * b.toRat :=
  ⟨a.mul b, rfl, Decimal.toRat_mul a b⟩

/-- Division in terms of the numbers alone. -/
theorem apply_divide_numbers (a b : Decimal) :
    (∃ q, Operator.divide.apply (.number a) (.number b) = .ok (.number q) ∧
      Decimal.exactQuotient a.toRat b.toRat = .ok q.toRat) ∨
    (∃ e, Operator.divide.apply (.number a) (.number b) = .error (.division e) ∧
      Decimal.exactQuotient a.toRat b.toRat = .error e) := by
  rw [← Decimal.divide_toRat]
  cases h : a.divide b with
  | ok q =>
    left
    use q
    exact ⟨by simp only [apply, eval?, Value.onNumbers?, h]; rfl, rfl⟩
  | error e =>
    right
    use e
    exact ⟨by simp only [apply, eval?, Value.onNumbers?, h]; rfl, rfl⟩

/-! ## Comparison -/

theorem cmp_beq (a b : Decimal) (o : Ordering) :
    (a.cmp b == o) = decide (compare a.toRat b.toRat = o) := by
  rw [Decimal.cmp_eq_compare_toRat, Bool.eq_iff_iff, beq_iff_eq, decide_eq_true_iff]

theorem apply_equal_numbers (a b : Decimal) :
    Operator.equal.apply (.number a) (.number b) = .ok (.truth (decide (a.toRat = b.toRat))) := by
  show Except.ok (Value.truth (a.cmp b == .eq)) = _
  simp only [cmp_beq, compare_eq_iff_eq]

theorem apply_greater_numbers (a b : Decimal) :
    Operator.greater.apply (.number a) (.number b) = .ok (.truth (decide (a.toRat > b.toRat))) := by
  show Except.ok (Value.truth (a.cmp b == .gt)) = _
  simp only [cmp_beq, compare_gt_iff_gt]

theorem apply_smaller_numbers (a b : Decimal) :
    Operator.smaller.apply (.number a) (.number b) = .ok (.truth (decide (a.toRat < b.toRat))) := by
  show Except.ok (Value.truth (a.cmp b == .lt)) = _
  simp only [cmp_beq, compare_lt_iff_lt]

theorem apply_notEqual_numbers (a b : Decimal) :
    Operator.notEqual.apply (.number a) (.number b) =
      .ok (.truth (decide (a.toRat ≠ b.toRat))) := by
  show Except.ok (Value.truth (a.cmp b != .eq)) = _
  simp only [bne, cmp_beq, compare_eq_iff_eq, decide_not]

/-- The two tests for equality have answers on the same operands, and opposite ones. -/
theorem notEqual?_eq (l r : Value) : Value.notEqual? l r = (Value.equal? l r).map not := by
  cases l with
  | text a => rfl
  | truth a => cases r <;> rfl
  | number a => cases r <;> rfl
  | null => rfl

theorem apply_notEqual_cases (l r : Value) :
    (∃ t, Operator.equal.apply l r = .ok (.truth t) ∧
      Operator.notEqual.apply l r = .ok (.truth !t)) ∨
    (∃ c c', Operator.equal.apply l r = .error c ∧ Operator.notEqual.apply l r = .error c') := by
  have hopposite := notEqual?_eq l r
  cases hequal : Value.equal? l r with
  | some t =>
    left
    use t
    rw [hequal, Option.map_some] at hopposite
    simp only [apply, eval?, hequal, hopposite, Option.map_some, and_self]
  | none =>
    right
    use .invalidOperation .equal l.sort r.sort, .invalidOperation .notEqual l.sort r.sort
    rw [hequal, Option.map_none] at hopposite
    simp only [apply, eval?, hequal, hopposite, Option.map_none, and_self]

/-! ## Results depend on numbers only -/

section Congruence

variable {a a' b b' : Decimal} (ha : a.toRat = a'.toRat) (hb : b.toRat = b'.toRat)

include ha hb

theorem sameResult_of_exact {op : Operator} {f : ℚ → ℚ → ℚ}
    (hop : ∀ a b : Decimal, ∃ c, op.apply (.number a) (.number b) = .ok (.number c) ∧
      c.toRat = f a.toRat b.toRat) :
    SameResult (op.apply (.number a) (.number b)) (op.apply (.number a') (.number b')) := by
  obtain ⟨c, heq, hc⟩ := hop a b
  obtain ⟨c', heq', hc'⟩ := hop a' b'
  rw [heq, heq']
  apply SameResult.ok
  apply Value.Same.number
  rw [hc, hc', ha, hb]

theorem sameResult_divide :
    SameResult (Operator.divide.apply (.number a) (.number b))
      (Operator.divide.apply (.number a') (.number b')) := by
  have hcases := apply_divide_numbers a b
  rw [ha, hb] at hcases
  obtain ⟨q, heq, hq⟩ | ⟨e, heq, he⟩ := hcases <;>
    obtain ⟨q', heq', hq'⟩ | ⟨e', heq', he'⟩ := apply_divide_numbers a' b'
  · rw [hq, Except.ok.injEq] at hq'
    rw [heq, heq']
    exact .ok (.number hq')
  · rw [hq] at he'
    cases he'
  · rw [he] at hq'
    cases hq'
  · rw [he, Except.error.injEq] at he'
    rw [heq, heq', he']
    exact .error _

theorem sameResult_numbers (op : Operator) :
    SameResult (op.apply (.number a) (.number b)) (op.apply (.number a') (.number b')) := by
  cases op with
  | add => exact sameResult_of_exact ha hb apply_add_numbers
  | subtract => exact sameResult_of_exact ha hb apply_subtract_numbers
  | multiply => exact sameResult_of_exact ha hb apply_multiply_numbers
  | divide => exact sameResult_divide ha hb
  | equal =>
    rw [apply_equal_numbers, apply_equal_numbers, ha, hb]
    exact .ok (.truth _)
  | notEqual =>
    rw [apply_notEqual_numbers, apply_notEqual_numbers, ha, hb]
    exact .ok (.truth _)
  | greater =>
    rw [apply_greater_numbers, apply_greater_numbers, ha, hb]
    exact .ok (.truth _)
  | smaller =>
    rw [apply_smaller_numbers, apply_smaller_numbers, ha, hb]
    exact .ok (.truth _)

end Congruence

/-! ## Dividing and multiplying back -/

theorem numbers_of_apply_divide {l r v : Value} (h : Operator.divide.apply l r = .ok v) :
    ∃ a b, l = .number a ∧ r = .number b := by
  cases l <;> cases r <;> first | exact ⟨_, _, rfl, rfl⟩ | cases h

theorem equal_multiply_divide {l r v : Value} (h : Operator.divide.apply l r = .ok v) :
    ∃ w, Operator.multiply.apply v r = .ok w ∧ Operator.equal.apply w l = .ok (.truth true) := by
  obtain ⟨a, b, rfl, rfl⟩ := numbers_of_apply_divide h
  obtain ⟨q, heq, hq⟩ | ⟨e, heq, -⟩ := apply_divide_numbers a b
  · rw [heq] at h
    cases h
    obtain ⟨c, hmul, hc⟩ := apply_multiply_numbers q b
    use .number c
    rw [apply_equal_numbers, hc, Decimal.mul_of_exactQuotient hq, decide_eq_true rfl]
    exact ⟨hmul, rfl⟩
  · rw [heq] at h
    cases h

end Operator

/-- The operators are exact on numbers, whatever their scales: sums, differences and products exist
and are the rational ones, the comparisons are those of the rationals, no result depends on how its
operands are scaled, and a quotient multiplies back. Inequality is the negation of equality on all
values. -/
theorem number_operators_exact :
    (∀ a b : Decimal,
      (∃ c, Operator.add.apply (.number a) (.number b) = .ok (.number c) ∧
        c.toRat = a.toRat + b.toRat) ∧
      (∃ c, Operator.subtract.apply (.number a) (.number b) = .ok (.number c) ∧
        c.toRat = a.toRat - b.toRat) ∧
      (∃ c, Operator.multiply.apply (.number a) (.number b) = .ok (.number c) ∧
        c.toRat = a.toRat * b.toRat) ∧
      Operator.equal.apply (.number a) (.number b) = .ok (.truth (decide (a.toRat = b.toRat))) ∧
      Operator.notEqual.apply (.number a) (.number b) = .ok (.truth (decide (a.toRat ≠ b.toRat))) ∧
      Operator.greater.apply (.number a) (.number b) = .ok (.truth (decide (a.toRat > b.toRat))) ∧
      Operator.smaller.apply (.number a) (.number b) = .ok (.truth (decide (a.toRat < b.toRat)))) ∧
    (∀ (op : Operator) (a a' b b' : Decimal), a.toRat = a'.toRat → b.toRat = b'.toRat →
      SameResult (op.apply (.number a) (.number b)) (op.apply (.number a') (.number b'))) ∧
    (∀ l r v : Value, Operator.divide.apply l r = .ok v →
      ∃ w, Operator.multiply.apply v r = .ok w ∧ Operator.equal.apply w l = .ok (.truth true)) ∧
    (∀ l r : Value,
      (∃ t, Operator.equal.apply l r = .ok (.truth t) ∧
        Operator.notEqual.apply l r = .ok (.truth !t)) ∨
      (∃ c c', Operator.equal.apply l r = .error c ∧
        Operator.notEqual.apply l r = .error c')) := by
  refine ⟨?_, ?_, ?_, Operator.apply_notEqual_cases⟩
  · intro a b
    exact ⟨Operator.apply_add_numbers a b, Operator.apply_subtract_numbers a b,
      Operator.apply_multiply_numbers a b, Operator.apply_equal_numbers a b,
      Operator.apply_notEqual_numbers a b, Operator.apply_greater_numbers a b,
      Operator.apply_smaller_numbers a b⟩
  · intro op a a' b b' ha hb
    exact Operator.sameResult_numbers ha hb op
  · intro l r v h
    exact Operator.equal_multiply_divide h

/-- `1.50` and `1.5` divide by `0.30` and `0.3` alike, and the quotient multiplies back. -/
theorem quotient_of_rescaled :
    SameResult (Operator.divide.apply (.number ⟨150, 2⟩) (.number ⟨30, 2⟩))
      (Operator.divide.apply (.number ⟨15, 1⟩) (.number ⟨3, 1⟩)) ∧
    ∃ w, Operator.multiply.apply (.number ⟨5, 0⟩) (.number ⟨30, 2⟩) = .ok w ∧
      Operator.equal.apply w (.number ⟨150, 2⟩) = .ok (.truth true) := by
  have hdividend : (⟨150, 2⟩ : Decimal).toRat = (⟨15, 1⟩ : Decimal).toRat := by
    norm_num [Decimal.toRat]
  have hdivisor : (⟨30, 2⟩ : Decimal).toRat = (⟨3, 1⟩ : Decimal).toRat := by
    norm_num [Decimal.toRat]
  have hdivide :
      Operator.divide.apply (.number ⟨150, 2⟩) (.number ⟨30, 2⟩) = .ok (.number ⟨5, 0⟩) := by
    decide +kernel
  exact ⟨number_operators_exact.2.1 .divide _ _ _ _ hdividend hdivisor,
    number_operators_exact.2.2.1 _ _ _ hdivide⟩

end PiScript
