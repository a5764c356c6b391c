import PiScript.Decimal.Text
import PiScript.Proofs.Decimal.Numerals
import PiScript.Proofs.Decimal.Rational
import PiScript.Text.Blank

/-!
# Reading plain forms

The plain form of a decimal is a numeral, and reading it gives the decimal back: at its own scale,
or at scale zero if that was negative. The plain form is cut into the digits before and behind the
point, which together write the unscaled integer behind some zeros.
-/

namespace PiScript

namespace Decimal

open Numeral

/-! ## Digits -/

theorem allDigits_zeros (n : Nat) : AllDigits (List.replicate n '0') := by
  intro c hc
  rw [List.eq_of_mem_replicate hc]
  rfl

theorem allDigits_digits (n : Nat) : AllDigits (digits n) := by
  intro c hc
  rw [digits_eq_toDigits] at hc
  exact Nat.isDigit_of_mem_toDigits (by decide) (by decide) hc

theorem digits_ne_nil (n : Nat) : digits n ≠ [] := by
  rw [digits_eq_toDigits]
  exact Nat.toDigits_ne_nil

theorem valueOf_digits (n : Nat) : valueOf (digits n) = n := by
  rw [valueOf, digits_eq_toDigits]
  exact Nat.ofDigitChars_ten_toDigits

theorem valueOf_zeros_append (n : Nat) (ds : List Char) :
    valueOf (List.replicate n '0' ++ ds) = valueOf ds := by
  rw [valueOf, Nat.ofDigitChars_append, Nat.ofDigitChars_replicate_zero, Nat.mul_zero]
  rfl

theorem valueOf_append_zeros (ds : List Char) (n : Nat) :
    valueOf (ds ++ List.replicate n '0') = valueOf ds * tenPow n := by
  rw [valueOf, Nat.ofDigitChars_append, Nat.ofDigitChars_replicate_zero, Nat.mul_comm]
  rfl

theorem isDigits_digits (n : Nat) : IsDigits (digits n) :=
  ⟨digits_ne_nil n, allDigits_digits n⟩

/-! ## Signs -/

theorem withSign_eq (n : Int) (cs : List Char) : withSign n cs = sign (decide (n < 0)) ++ cs := by
  unfold withSign sign
  by_cases hn : n < 0
  · rw [if_pos hn, decide_eq_true hn]
    rfl
  · rw [if_neg hn, decide_eq_false hn]
    rfl

theorem signed_natAbs (n : Int) :
    (if decide (n < 0) = true then -(n.natAbs : Int) else n.natAbs) = n := by
  by_cases hn : n < 0
  · rw [if_pos (decide_eq_true hn)]
    omega
  · rw [if_neg (by simpa using hn)]
    omega

/-- Digits behind a sign, with at most one point among them, are a numeral. -/
theorem ofNumeral?_withSign {n : Int} {cs : List Char} {places : Nat}
    (hcs : Mantissa cs n.natAbs places) (hplaces : (places : Int) ≤ maxWord) :
    ofNumeral? (withSign n cs) = some ⟨n, places⟩ := by
  obtain ⟨m, hwrites, hexponent, hunscaled, hscale⟩ := hcs.exists_numeral (decide (n < 0))
  rw [withSign_eq, ofNumeral?_eq_some_iff]
  refine ⟨m, hwrites, ?_, ?_⟩
  · have hzero : valueOf [] = 0 := rfl
    simp only [inRange, hexponent, hzero, hscale, Bool.and_eq_true, decide_eq_true_eq]
    unfold maxWord minWord at *
    omega
  · rw [hunscaled, hscale, signed_natAbs]

/-- A power of ten is positive, so extending the scale keeps the sign. -/
theorem unscaled_extend_neg_iff (d : Decimal) (places : Nat) :
    (d.extend places).unscaled < 0 ↔ d.unscaled < 0 := by
  have hten : (0 : Int) < tenPow places := Int.natCast_pos.mpr (Nat.pow_pos (by decide))
  show d.unscaled * tenPow places < 0 ↔ _
  constructor
  · intro h
    by_contra hneg
    have hle := Int.mul_nonneg (Int.not_lt.mp hneg) (Int.le_of_lt hten)
    omega
  · exact fun h => Int.mul_neg_of_neg_of_pos h hten

/-! ## Plain forms -/

/-- `placePoint` puts the point between the digits, behind zeros if there are too few. -/
theorem mantissa_placePoint {ds : List Char} (h : IsDigits ds) (places : Nat) :
    Mantissa (placePoint ds places) (valueOf ds) places := by
  unfold placePoint
  by_cases hzero : places = 0
  · rw [if_pos hzero, hzero]
    exact .whole h
  rw [if_neg hzero]
  by_cases hlt : places < ds.length
  -- Enough digits: the point goes between them.
  · rw [if_pos hlt]
    have hsplit := List.take_append_drop (ds.length - places) ds
    have hboth : AllDigits (ds.take (ds.length - places)) ∧
        AllDigits (ds.drop (ds.length - places)) := by
      rw [← allDigits_append, hsplit]
      exact h.all
    have hwhole : (ds.take (ds.length - places)).length = ds.length - places := by
      rw [List.length_take]
      omega
    have hfraction : (ds.drop (ds.length - places)).length = places := by
      rw [List.length_drop]
      omega
    have hcut := Mantissa.fraction ⟨List.ne_nil_of_length_pos (by omega), hboth.1⟩
      ⟨List.ne_nil_of_length_pos (by omega), hboth.2⟩
    rwa [hsplit, hfraction] at hcut
  -- Too few: a zero stands in front of the point and more of them behind it.
  · rw [if_neg hlt]
    have hlength : (List.replicate (places - ds.length) '0' ++ ds).length = places := by
      rw [List.length_append, List.length_replicate]
      omega
    have hvalue : valueOf (['0'] ++ (List.replicate (places - ds.length) '0' ++ ds)) =
        valueOf ds := by
      rw [← List.append_assoc]
      show valueOf (List.replicate 1 '0' ++ List.replicate _ '0' ++ ds) = _
      rw [List.replicate_append_replicate, valueOf_zeros_append]
    have hfraction : IsDigits (List.replicate (places - ds.length) '0' ++ ds) :=
      ⟨List.ne_nil_of_length_pos (by omega), allDigits_append.mpr ⟨allDigits_zeros _, h.all⟩⟩
    have hcut := Mantissa.fraction ⟨List.cons_ne_nil '0' [], allDigits_zeros 1⟩ hfraction
    rwa [hvalue, hlength] at hcut

/-- The plain form is that of the same number at a scale that is not negative. -/
theorem exists_mantissa_plain (d : Decimal) :
    ∃ cs, d.plainChars = withSign (d.extend (-d.scale).toNat).unscaled cs ∧
      Mantissa cs (d.extend (-d.scale).toNat).unscaled.natAbs d.scale.toNat := by
  have hds := isDigits_digits d.unscaled.natAbs
  have hsign : ∀ cs, withSign d.unscaled cs = withSign (d.extend (-d.scale).toNat).unscaled cs := by
    intro cs
    unfold withSign
    simp only [unscaled_extend_neg_iff]
  unfold plainChars
  by_cases hneg : d.scale < 0
  -- Zeros are written in place of a point, as many as it takes to get to scale zero.
  · have hplaces : d.scale.toNat = 0 := by omega
    have hzeros : d.scale.natAbs = (-d.scale).toNat := by omega
    have hvalue : valueOf (digits d.unscaled.natAbs ++ List.replicate d.scale.natAbs '0') =
        (d.extend (-d.scale).toNat).unscaled.natAbs := by
      rw [valueOf_append_zeros, valueOf_digits, hzeros, extend, Int.natAbs_mul, Int.natAbs_natCast]
    refine ⟨digits d.unscaled.natAbs ++ List.replicate d.scale.natAbs '0', ?_, ?_⟩
    · simp only [if_pos hneg, hsign]
    · rw [← hvalue, hplaces]
      exact .whole ⟨by simp [hds.ne_nil], allDigits_append.mpr ⟨hds.all, allDigits_zeros _⟩⟩
  · have hzero : (-d.scale).toNat = 0 := by omega
    have hvalue : valueOf (digits d.unscaled.natAbs) =
        (d.extend (-d.scale).toNat).unscaled.natAbs := by
      rw [valueOf_digits, hzero]
      show _ = (d.unscaled * 1).natAbs
      rw [Int.mul_one]
    refine ⟨placePoint (digits d.unscaled.natAbs) d.scale.toNat, ?_, ?_⟩
    · simp only [if_neg hneg, hsign]
    · rw [← hvalue]
      exact mantissa_placePoint hds _

theorem scale_extend_to_zero (d : Decimal) : (d.extend (-d.scale).toNat).scale = d.scale.toNat := by
  show d.scale + ((-d.scale).toNat : Int) = _
  omega

/-- Reading a plain form gives the decimal at its own scale, or at zero if that is negative. -/
theorem ofNumeral?_plainChars {d : Decimal} (h : d.scale ≤ maxWord) :
    ofNumeral? d.plainChars = some (d.extend (-d.scale).toNat) := by
  obtain ⟨cs, hplain, hcs⟩ := exists_mantissa_plain d
  have hplaces : (d.scale.toNat : Int) ≤ maxWord := by
    unfold maxWord at *
    omega
  rw [hplain, ofNumeral?_withSign hcs hplaces, ← scale_extend_to_zero]

/-! ## Characters of written forms -/

theorem not_blank_of_isDigit {c : Char} (h : c.isDigit = true) : Text.isBlank c = false := by
  have hlow : 48 ≤ c.toNat ∧ c.toNat ≤ 57 := by
    simpa [Char.isDigit, UInt32.le_iff_toNat_le] using h
  simp [Text.isBlank, Text.blankRanges]
  omega

theorem not_blank_of_mantissa {cs : List Char} {size places : Nat} (h : Mantissa cs size places) :
    ∀ c ∈ cs, Text.isBlank c = false := by
  cases h with
  | whole hI => exact fun c hc => not_blank_of_isDigit (hI.all c hc)
  | fraction hI hF =>
    exact List.forall_mem_append.mpr ⟨fun c hc => not_blank_of_isDigit (hI.all c hc),
      List.forall_mem_cons.mpr ⟨by decide, fun c hc => not_blank_of_isDigit (hF.all c hc)⟩⟩

theorem not_blank_withSign (n : Int) {cs : List Char} (h : ∀ c ∈ cs, Text.isBlank c = false) :
    ∀ c ∈ withSign n cs, Text.isBlank c = false := by
  unfold withSign
  split
  · exact List.forall_mem_cons.mpr ⟨by decide, h⟩
  · exact h

theorem not_blank_plainChars (d : Decimal) : ∀ c ∈ d.plainChars, Text.isBlank c = false := by
  obtain ⟨cs, hplain, hcs⟩ := exists_mantissa_plain d
  rw [hplain]
  exact not_blank_withSign _ (not_blank_of_mantissa hcs)

theorem not_blank_exponentMark (e : Int) : ∀ c ∈ exponentMark e, Text.isBlank c = false := by
  have hds : ∀ c ∈ digits e.natAbs, Text.isBlank c = false :=
    fun c hc => not_blank_of_isDigit (allDigits_digits _ c hc)
  unfold exponentMark
  split
  · simp
  · split
    · exact List.forall_mem_cons.mpr ⟨by decide, List.forall_mem_cons.mpr ⟨by decide, hds⟩⟩
    · exact List.forall_mem_cons.mpr ⟨by decide, List.forall_mem_cons.mpr ⟨by decide, hds⟩⟩

/-- One digit in front of the point leaves all others behind it. -/
theorem mantissa_pointAfterFirst {ds : List Char} (h : IsDigits ds) :
    Mantissa (pointAfterFirst ds) (valueOf ds) (ds.length - 1) := by
  match ds, h with
  | [], h => exact absurd rfl h.ne_nil
  | [c], h => exact .whole h
  | c :: e :: ds, h =>
    obtain ⟨hc, hds⟩ := List.forall_mem_cons.mp h.all
    exact .fraction (I := [c]) ⟨List.cons_ne_nil _ _, by simpa [AllDigits] using hc⟩
      ⟨List.cons_ne_nil _ _, hds⟩

theorem not_blank_canonicalChars (d : Decimal) :
    ∀ c ∈ d.canonicalChars, Text.isBlank c = false := by
  have hds := isDigits_digits d.unscaled.natAbs
  unfold canonicalChars
  apply not_blank_withSign
  split
  · exact not_blank_of_mantissa (mantissa_placePoint hds _)
  · exact List.forall_mem_append.mpr
      ⟨not_blank_of_mantissa (mantissa_pointAfterFirst hds), not_blank_exponentMark _⟩

end Decimal

end PiScript
