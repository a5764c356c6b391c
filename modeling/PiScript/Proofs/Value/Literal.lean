import PiScript.Proofs.Decimal.Plain
import PiScript.Proofs.Statement.Source
import PiScript.Proofs.Token.Table

/-!
# Literals and the values they decode to

Decoding the literal of a value that can be written gives the value back, numbers at a scale that
may differ; and whatever a word without blanks decodes to can be written.
-/

namespace PiScript

/-! ## Words between plus signs -/

theorem toList_nameWord (s : String) : (nameWord s).toList = '+' :: (s.toList ++ ['+']) := by
  rw [nameWord, String.toList_append, String.toList_append]
  rfl

theorem specifiedKind_nameWord (s : String) :
    Token.specifiedKind (nameWord s).toList = .operand := by
  have hlast : ('+' :: (s.toList ++ ['+'])).getLast? = some '+' := by
    rw [← List.cons_append, List.getLast?_concat]
  rw [toList_nameWord, Token.specifiedKind, if_neg (by simp), if_neg (by simp),
    if_pos ⟨by simp, rfl, hlast⟩]

theorem Value.ofLiteral_nameWord (s : String) :
    Value.ofLiteral (nameWord s) = Value.ofInner s := by
  rw [Value.ofLiteral, toList_nameWord, List.tail_cons, List.dropLast_concat, String.ofList_toList]

theorem Value.ofInner_name {s : String} (h : IsName s) : Value.ofInner s = .text s := by
  rw [Value.ofInner, if_neg h.ne_null, if_neg h.ne_true, if_neg h.ne_false, h.not_number]

theorem Value.ofLiteral_name {s : String} (h : IsName s) :
    Value.ofLiteral (nameWord s) = .text s := by
  rw [Value.ofLiteral_nameWord, Value.ofInner_name h]

/-! ## Values -/

namespace Value

/-- A numeral is none of the constants. -/
theorem ofInner_number {s : String} {d : Decimal} (h : Decimal.ofNumeral? s.toList = some d) :
    ofInner s = .number d := by
  -- The constants are no numerals.
  have hne : ∀ t : String, Decimal.ofNumeral? t.toList = none → s ≠ t := by
    rintro t ht rfl
    rw [ht] at h
    cases h
  rw [ofInner, if_neg (hne "null" (by decide +kernel)), if_neg (hne "true" (by decide +kernel)),
    if_neg (hne "false" (by decide +kernel)), h]

theorem ofInner_plain {d : Decimal} (h : d.scale ≤ Decimal.maxWord) :
    ofInner d.plain = .number (d.extend (-d.scale).toNat) := by
  apply ofInner_number
  rw [Decimal.plain, String.toList_ofList]
  exact Decimal.ofNumeral?_plainChars h

theorem same_ofInner_inner {v : Value} (h : v.WellFormed) : v.Same (ofInner v.inner) := by
  cases v with
  | text s =>
    show Value.Same (.text s) (ofInner s)
    rw [ofInner_name h]
    exact .text s
  | number d =>
    show Value.Same (.number d) (ofInner d.plain)
    rw [ofInner_plain h.2]
    exact .number (d.toRat_extend _).symm
  | truth b => cases b <;> exact .truth _
  | null => exact .null

theorem same_ofLiteral_literal {v : Value} (h : v.WellFormed) : v.Same (ofLiteral v.literal) := by
  have hliteral : v.literal = nameWord v.inner := rfl
  rw [hliteral, ofLiteral_nameWord]
  exact same_ofInner_inner h

theorem not_blank_of_all {cs : List Char} (h : cs.all (fun c => !Text.isBlank c) = true) :
    ∀ c ∈ cs, Text.isBlank c = false := by
  simpa using h

theorem not_blank_inner {v : Value} (h : v.WellFormed) :
    ∀ c ∈ v.inner.toList, Text.isBlank c = false := by
  cases v with
  | text s => exact h.not_blank
  | number d =>
    show ∀ c ∈ (String.ofList d.plainChars).toList, _
    rw [String.toList_ofList]
    exact d.not_blank_plainChars
  | truth b =>
    apply not_blank_of_all
    cases b <;> decide +kernel
  | null =>
    apply not_blank_of_all
    decide +kernel

theorem scale_of_ofNumeral? {cs : List Char} {d : Decimal} (h : Decimal.ofNumeral? cs = some d) :
    Decimal.minWord ≤ d.scale ∧ d.scale ≤ Decimal.maxWord := by
  unfold Decimal.ofNumeral? at h
  obtain ⟨n, -, hn⟩ := Option.bind_eq_some_iff.mp h
  unfold Numeral.decimal? at hn
  -- A numeral out of range is no decimal.
  split at hn
  · rename_i hrange
    cases hn
    simp only [Numeral.inRange, Bool.and_eq_true, decide_eq_true_eq] at hrange
    exact ⟨hrange.1.2, hrange.2⟩
  · cases hn

/-- What a text without blanks decodes to can be written. -/
theorem wellFormed_ofInner {s : String} (h : ∀ c ∈ s.toList, Text.isBlank c = false) :
    (ofInner s).WellFormed := by
  unfold ofInner
  by_cases hnull : s = "null"
  · rw [if_pos hnull]
    trivial
  by_cases htrue : s = "true"
  · rw [if_neg hnull, if_pos htrue]
    trivial
  by_cases hfalse : s = "false"
  · rw [if_neg hnull, if_neg htrue, if_pos hfalse]
    trivial
  rw [if_neg hnull, if_neg htrue, if_neg hfalse]
  cases hnumber : Decimal.ofNumeral? s.toList with
  | some d => exact scale_of_ofNumeral? hnumber
  | none => exact ⟨h, hnull, htrue, hfalse, hnumber⟩

theorem wellFormed_ofLiteral {word : String}
    (h : ∀ c ∈ word.toList, Text.isBlank c = false) : (ofLiteral word).WellFormed := by
  apply wellFormed_ofInner
  intro c hc
  rw [String.toList_ofList] at hc
  exact h c (List.mem_of_mem_tail ((List.dropLast_sublist _).mem hc))

end Value

end PiScript
