import PiScript.Proofs.Decimal.Written
import PiScript.Proofs.Value.Literal

/-!
# What literals decode to

The text between the plus signs of a literal is a constant, a numeral in range, or anything else,
and decodes to a constant, to the decimal that the numeral stands for, or to itself
(`literal_decodes_by_grammar`). A value written as a literal decodes to itself again, numbers of
negative scale at scale zero, unless it is a text that decodes to something else
(`literal_recovers_value`).
-/

namespace PiScript

open Numeral (valueOf)

/-- The text is a numeral that stands for `d`: all digits in front of the exponent write the
unscaled integer, and the scale is the number of digits behind the point less the exponent. The
exponent fits a signed 128-bit word and the scale a signed 64-bit word. -/
def Decimal.HasNumeral (d : Decimal) (cs : List Char) : Prop :=
  ∃ n : Numeral, n.Writes cs ∧
    d.unscaled = (if n.negative then -1 else 1) * valueOf (n.whole ++ n.fraction) ∧
    d.scale = n.fraction.length - valueOf n.exponent ∧
    valueOf n.exponent < 2 ^ 127 ∧ -2 ^ 63 ≤ d.scale ∧ d.scale < 2 ^ 63

theorem Numeral.inRange_iff (n : Numeral) :
    n.inRange = true ↔ valueOf n.exponent < 2 ^ 127 ∧ -2 ^ 63 ≤ n.scale ∧ n.scale < 2 ^ 63 := by
  simp only [inRange, Bool.and_eq_true, decide_eq_true_eq]
  unfold maxExponent Decimal.minWord Decimal.maxWord
  omega

theorem Numeral.unscaled_eq (n : Numeral) :
    n.unscaled = (if n.negative then -1 else 1) * valueOf (n.whole ++ n.fraction) := by
  unfold unscaled
  by_cases hsign : n.negative = true
  · rw [if_pos hsign, if_pos hsign, Int.neg_one_mul]
  · rw [if_neg hsign, if_neg hsign, Int.one_mul]

theorem Decimal.ofNumeral?_eq_some_iff_hasNumeral {cs : List Char} {d : Decimal} :
    ofNumeral? cs = some d ↔ d.HasNumeral cs := by
  rw [ofNumeral?_eq_some_iff]
  apply exists_congr
  intro n
  apply and_congr_right
  intro _
  constructor
  · rintro ⟨hrange, rfl⟩
    exact ⟨n.unscaled_eq, rfl, n.inRange_iff.mp hrange⟩
  · rintro ⟨hunscaled, hscale, hrange⟩
    have hdecimal : (⟨n.unscaled, n.scale⟩ : Decimal) = d := by
      rw [n.unscaled_eq, ← hunscaled, Numeral.scale, ← hscale]
    refine ⟨n.inRange_iff.mpr ?_, hdecimal⟩
    rwa [← hdecimal] at hrange

theorem Decimal.ofNumeral?_eq_none_iff {cs : List Char} :
    ofNumeral? cs = none ↔ ∀ d : Decimal, ¬d.HasNumeral cs := by
  simp only [← ofNumeral?_eq_some_iff_hasNumeral]
  exact Option.eq_none_iff_forall_ne_some

namespace Value

/-- The text of a word without its first and last character. -/
def enclosed (word : String) : String :=
  String.ofList word.toList.tail.dropLast

/-! ## Every kind of value -/

theorem ofInner_eq_null_iff {s : String} : ofInner s = .null ↔ s = "null" := by
  constructor
  · intro h
    by_contra hnull
    rw [ofInner, if_neg hnull] at h
    repeat' split at h
    all_goals cases h
  · rintro rfl
    rfl

theorem ofInner_eq_truth_iff {s : String} {b : Bool} :
    ofInner s = .truth b ↔ s = if b then "true" else "false" := by
  constructor
  · intro h
    unfold ofInner at h
    repeat' split at h
    all_goals cases h
    -- What is left is a constant in each case.
    · next htrue => exact htrue
    · next hfalse => exact hfalse
  · rintro rfl
    cases b <;> rfl

theorem ofInner_eq_number_iff {s : String} {d : Decimal} :
    ofInner s = .number d ↔ d.HasNumeral s.toList := by
  rw [← Decimal.ofNumeral?_eq_some_iff_hasNumeral]
  constructor
  · intro h
    unfold ofInner at h
    repeat' split at h
    all_goals cases h
    next hread => exact hread
  · exact ofInner_number

theorem ofInner_eq_text_iff {s t : String} :
    ofInner s = .text t ↔
      t = s ∧ t ≠ "null" ∧ t ≠ "true" ∧ t ≠ "false" ∧ ∀ d : Decimal, ¬d.HasNumeral t.toList := by
  rw [← Decimal.ofNumeral?_eq_none_iff]
  constructor
  · intro h
    unfold ofInner at h
    repeat' split at h
    all_goals cases h
    next hnull htrue hfalse _ hread => exact ⟨rfl, hnull, htrue, hfalse, hread⟩
  · rintro ⟨rfl, hnull, htrue, hfalse, hread⟩
    rw [ofInner, if_neg hnull, if_neg htrue, if_neg hfalse, hread]

/-- Decoding gives exactly the decimals of numerals in range, the constants for their names, and the
text itself for every other. -/
theorem literal_decodes_by_grammar (word : String) :
    (∀ d, ofLiteral word = .number d ↔ d.HasNumeral (enclosed word).toList) ∧
    (ofLiteral word = .null ↔ enclosed word = "null") ∧
    (∀ b, ofLiteral word = .truth b ↔ enclosed word = if b then "true" else "false") ∧
    (∀ s, ofLiteral word = .text s ↔ s = enclosed word ∧ s ≠ "null" ∧ s ≠ "true" ∧ s ≠ "false" ∧
      ∀ d : Decimal, ¬d.HasNumeral s.toList) := by
  have hinner : ofLiteral word = ofInner (enclosed word) := rfl
  rw [hinner]
  exact ⟨fun d => ofInner_eq_number_iff, ofInner_eq_null_iff, fun b => ofInner_eq_truth_iff,
    fun s => ofInner_eq_text_iff⟩

example : ofLiteral "+-01.50e+3+" = .number ⟨-150, -1⟩ ∧ ofLiteral "+1e+3+" = .text "1e+3" := by
  decide +kernel

/-! ## Values written as literals -/

/-- The second value is the first one again. A number has its own scale, or scale zero if its own
is negative. -/
inductive Recovers : Value → Value → Prop where
  | text (s : String) : Recovers (.text s) (.text s)
  | number {d e : Decimal} (hvalue : e.toRat = d.toRat) (hsame : 0 ≤ d.scale → e = d)
      (hzero : d.scale < 0 → e.scale = 0) : Recovers (.number d) (.number e)
  | truth (b : Bool) : Recovers (.truth b) (.truth b)
  | null : Recovers .null .null

theorem recovers_number {d : Decimal} (hscale : d.scale < 2 ^ 63) :
    Recovers (.number d) (ofInner d.plain) := by
  have hword : d.scale ≤ Decimal.maxWord := by
    unfold Decimal.maxWord
    omega
  rw [ofInner_plain hword]
  refine .number (d.toRat_extend _) (fun hnonneg => ?_) (fun hneg => ?_)
  · have hplaces : (-d.scale).toNat = 0 := by omega
    rw [hplaces]
    show (⟨d.unscaled * 1, d.scale + 0⟩ : Decimal) = d
    rw [Int.mul_one, Int.add_zero]
  · show d.scale + ((-d.scale).toNat : Int) = 0
    omega

theorem recovers_text_iff {s : String} :
    Recovers (.text s) (ofInner s) ↔
      s ≠ "null" ∧ s ≠ "true" ∧ s ≠ "false" ∧ ∀ d, ofInner s ≠ .number d := by
  have htext : Recovers (.text s) (ofInner s) ↔ ofInner s = .text s := by
    constructor
    · intro h
      generalize hw : ofInner s = w at h
      cases h
      rfl
    · intro h
      rw [h]
      exact .text s
  rw [htext, ofInner_eq_text_iff]
  simp only [true_and, ne_eq, ofInner_eq_number_iff]

theorem recovers_iff {v : Value} (hscale : ∀ d, v = .number d → d.scale < 2 ^ 63) :
    v.Recovers (ofInner v.inner) ↔
      ∀ s, v = .text s → s ≠ "null" ∧ s ≠ "true" ∧ s ≠ "false" ∧ ∀ d, ofInner s ≠ .number d := by
  cases v with
  | text s =>
    rw [inner, recovers_text_iff]
    constructor
    · rintro h _ ⟨⟩
      exact h
    · exact fun h => h s rfl
  | number d => exact iff_of_true (recovers_number (hscale d rfl)) (by simp)
  | truth b => exact iff_of_true (by cases b <;> exact .truth _) (by simp)
  | null => exact iff_of_true .null (by simp)

/-- What a word decodes to is a value that its literal decodes to. -/
theorem recovers_ofInner (s : String) : (ofInner s).Recovers (ofInner (ofInner s).inner) := by
  rw [recovers_iff]
  -- A text that something decodes to is that something.
  · intro t ht
    obtain ⟨rfl, hnull, htrue, hfalse, -⟩ := ofInner_eq_text_iff.mp ht
    refine ⟨hnull, htrue, hfalse, fun d hd => ?_⟩
    rw [ht] at hd
    cases hd
  · intro d hd
    obtain ⟨n, -, -, -, -, -, hscale⟩ := ofInner_eq_number_iff.mp hd
    exact hscale

/-- Decoding the literal of a value gives the value again, unless it is a text that decodes to
something else. What decoding has given is never such a text. -/
theorem literal_recovers_value :
    (∀ v : Value, (∀ d, v = .number d → d.scale < 2 ^ 63) →
      (v.Recovers (ofLiteral v.literal) ↔
        ∀ s, v = .text s → s ≠ "null" ∧ s ≠ "true" ∧ s ≠ "false" ∧
          ∀ d, ofLiteral ("+" ++ s ++ "+") ≠ .number d)) ∧
    ∀ word, (ofLiteral word).Recovers (ofLiteral (ofLiteral word).literal) := by
  have hliteral : ∀ s, ofLiteral ("+" ++ s ++ "+") = ofInner s := ofLiteral_nameWord
  constructor
  · intro v hscale
    rw [literal, hliteral, recovers_iff hscale]
    simp only [hliteral]
  · intro word
    rw [literal, hliteral]
    exact recovers_ofInner _

/-- A decimal comes back from its literal, and a text that looks like one does not. -/
theorem literal_recovers_hundreds :
    (∀ d, number ⟨15, -2⟩ = .number d → d.scale < 2 ^ 63) ∧
    (number ⟨15, -2⟩).Recovers (ofLiteral "+1500+") ∧
    ¬(text "1500").Recovers (ofLiteral "+1500+") := by
  have hscale : ∀ d, number ⟨15, -2⟩ = .number d → d.scale < 2 ^ 63 := by
    rintro _ ⟨⟩
    decide
  have hnumber : (number ⟨15, -2⟩).literal = "+1500+" := by decide +kernel
  have htext : ofLiteral ("+" ++ "1500" ++ "+") = .number ⟨1500, 0⟩ := by decide +kernel
  refine ⟨hscale, ?_, fun h => ?_⟩
  · rw [← hnumber]
    exact (literal_recovers_value.1 _ hscale).mpr (by simp)
  · obtain ⟨-, -, -, hkept⟩ := (literal_recovers_value.1 (.text "1500") (by simp)).mp h "1500" rfl
    exact hkept ⟨1500, 0⟩ htext

end Value

end PiScript
