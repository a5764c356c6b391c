import PiScript.Proofs.Decimal.Order
import PiScript.Proofs.Value.Decoding

/-!
# Reading back what is printed

Numbers are printed in canonical form, and a literal of that form need not decode to a number: the
exponent of a numeral has a plus sign and stands behind a fraction. Plain forms, and scientific
forms with a positive exponent and two or more digits, decode to the very decimal that was printed.
All others decode to texts (`canonical_decodes_iff`).
-/

namespace PiScript

namespace Numeral

/-! ## Texts that are no numerals -/

theorem read?_mark_eq_none {I : List Char} (hI : IsDigits I) (negative : Bool) (cs : List Char) :
    read? (sign negative ++ (I ++ 'E' :: cs)) = none := by
  rw [read?_sign_append (hI.head_ne_minus _), readUnsigned_append hI (by simp)]
  rfl

theorem read?_minus_eq_none {I F : List Char} (hI : IsDigits I) (hF : IsDigits F)
    (negative : Bool) (cs : List Char) :
    read? (sign negative ++ (I ++ '.' :: (F ++ 'E' :: '-' :: cs))) = none := by
  obtain ⟨d, ds, rfl⟩ := List.exists_cons_of_ne_nil hF.ne_nil
  rw [read?_sign_append (hI.head_ne_minus _), readUnsigned_append hI (by simp), readTail,
    spanDigits_append hF.all (by simp)]
  rfl

end Numeral

namespace Decimal

open Numeral

theorem one_lt_length_digits_iff (n : Nat) : 1 < (digits n).length ↔ 10 ≤ n := by
  constructor
  · intro hlength
    by_contra hlt
    rw [digits_eq_toDigits, Nat.toDigits_of_lt_base (by omega)] at hlength
    exact absurd hlength (Nat.lt_irrefl 1)
  · intro hten
    by_contra hle
    have hlt := lt_ten_pow_length_digits n
    have hpow : 10 ^ (digits n).length ≤ 10 ^ 1 := Nat.pow_le_pow_right (by decide) (by omega)
    omega

/-! ## Scientific forms -/

theorem pointAfterFirst_of_length_le_one {ds : List Char} (h : ds.length ≤ 1) :
    pointAfterFirst ds = ds := by
  match ds, h with
  | [], _ => rfl
  | [c], _ => rfl

/-- Two or more digits are cut behind the first one. -/
theorem exists_pointAfterFirst {ds : List Char} (h : IsDigits ds) (hlength : 1 < ds.length) :
    ∃ c F, IsDigits [c] ∧ IsDigits F ∧ pointAfterFirst ds = [c] ++ '.' :: F := by
  match ds, h, hlength with
  | c :: e :: F, h, _ =>
    obtain ⟨hc, hF⟩ := List.forall_mem_cons.mp h.all
    exact ⟨c, e :: F, ⟨List.cons_ne_nil c [], by simpa [AllDigits] using hc⟩,
      ⟨List.cons_ne_nil e F, hF⟩, rfl⟩

section

variable {d : Decimal}

theorem canonicalChars_scientific (hplain : ¬d.isPlain = true) :
    d.canonicalChars = sign (decide (d.unscaled < 0)) ++
      (pointAfterFirst (digits d.unscaled.natAbs) ++ exponentMark d.adjusted) := by
  simp only [canonicalChars, if_neg hplain]
  rw [withSign_eq]

/-! ## Canonical forms as numerals -/

/-- A canonical form that is a numeral is one of the decimal itself, as both read alike. -/
theorem ofNumeral?_canonicalChars_of_writes {n : Numeral} (h : n.Writes d.canonicalChars)
    (hexponent : valueOf n.exponent < 2 ^ 127) (hscale : -2 ^ 63 ≤ d.scale ∧ d.scale < 2 ^ 63) :
    ofNumeral? d.canonicalChars = some d := by
  have hread := ofWritten?_of_writes h
  rw [ofWritten?_canonicalChars] at hread
  have hdecimal : (⟨n.unscaled, n.scale⟩ : Decimal) = d := (Option.some.inj hread).symm
  have hn : n.scale = d.scale := congrArg Decimal.scale hdecimal
  rw [← hn] at hscale
  exact ofNumeral?_eq_some_iff.mpr ⟨n, h, n.inRange_iff.mpr ⟨hexponent, hscale⟩, hdecimal⟩

theorem ofNumeral?_canonicalChars_plain (hplain : d.isPlain = true) (hscale : d.scale < 2 ^ 63) :
    ofNumeral? d.canonicalChars = some d := by
  have hnonneg := ((isPlain_iff d).mp hplain).1
  have hplaces : (d.scale.toNat : Int) ≤ maxWord := by
    unfold maxWord
    omega
  have hcs := mantissa_placePoint (isDigits_digits d.unscaled.natAbs) d.scale.toNat
  rw [valueOf_digits] at hcs
  simp only [canonicalChars, if_pos hplain]
  rw [ofNumeral?_withSign hcs hplaces, Int.toNat_of_nonneg hnonneg]

theorem ofNumeral?_canonicalChars_scientific (hneg : d.scale < 0) (hten : 10 ≤ d.unscaled.natAbs)
    (hadjusted : d.adjusted < 2 ^ 63) : ofNumeral? d.canonicalChars = some d := by
  have hlength := (one_lt_length_digits_iff d.unscaled.natAbs).mpr hten
  have hscale : d.scale = (digits d.unscaled.natAbs).length - 1 - d.adjusted := by
    rw [adjusted]
    omega
  have hplain : ¬d.isPlain = true := by
    rw [isPlain_iff]
    omega
  obtain ⟨c, F, hc, hF, hpoint⟩ := exists_pointAfterFirst (isDigits_digits _) hlength
  -- `I.FE+X`, where the exponent is positive because no digit stands behind the point.
  have hchars : d.canonicalChars = sign (decide (d.unscaled < 0)) ++
      ([c] ++ '.' :: (F ++ 'E' :: '+' :: digits d.adjusted.natAbs)) := by
    rw [canonicalChars_scientific hplain, hpoint, exponentMark_of_pos (by omega),
      List.append_assoc]
    rfl
  have hwrites := Writes.exponent (decide (d.unscaled < 0)) hc hF (.inr rfl)
    (isDigits_digits d.adjusted.natAbs)
  rw [← hchars] at hwrites
  apply ofNumeral?_canonicalChars_of_writes hwrites
  · rw [valueOf_digits]
    omega
  · omega

/-- One digit with an exponent behind it is no numeral, and neither is a negative exponent. -/
theorem ofNumeral?_canonicalChars_eq_none (hplain : ¬d.isPlain = true)
    (hshape : 0 ≤ d.scale ∨ d.unscaled.natAbs < 10) : ofNumeral? d.canonicalChars = none := by
  have hds := isDigits_digits d.unscaled.natAbs
  have hten := one_lt_length_digits_iff d.unscaled.natAbs
  have hlength := List.length_pos_iff.mpr hds.ne_nil
  have hscale : d.scale = (digits d.unscaled.natAbs).length - 1 - d.adjusted := by
    rw [adjusted]
    omega
  rw [isPlain_iff] at hplain
  rw [ofNumeral?, canonicalChars_scientific (by rwa [isPlain_iff])]
  by_cases hone : (digits d.unscaled.natAbs).length ≤ 1
  · obtain ⟨cs, hmark⟩ := exists_exponentMark (show d.adjusted ≠ 0 by omega)
    rw [pointAfterFirst_of_length_le_one hone, hmark, read?_mark_eq_none hds]
    rfl
  · obtain ⟨c, F, hc, hF, hpoint⟩ := exists_pointAfterFirst hds (by omega)
    rw [hpoint, exponentMark_of_neg (by omega), List.append_assoc]
    show (read? (_ ++ ([c] ++ '.' :: (F ++ _)))).bind _ = none
    rw [read?_minus_eq_none hc hF]
    rfl

end

end Decimal

namespace Value

theorem ofInner_canonical_eq_text (d : Decimal) (h : Decimal.ofNumeral? d.canonicalChars = none) :
    ofInner d.canonical = .text d.canonical := by
  have hread := Decimal.ofWritten?_canonical d
  -- A canonical form reads as a decimal, and the constants do not.
  have hne : ∀ t : String, Decimal.ofWritten? t.toList = none → d.canonical ≠ t := by
    intro t ht hcanonical
    rw [hcanonical, ht] at hread
    cases hread
  rw [← String.toList_ofList (l := d.canonicalChars)] at h
  exact ofInner_eq_text_iff.mpr ⟨rfl, hne "null" (by decide +kernel),
    hne "true" (by decide +kernel), hne "false" (by decide +kernel),
    Decimal.ofNumeral?_eq_none_iff.mp h⟩

/-- The canonical form of a decimal decodes to that decimal if it is plain, or if it has digits to
put behind the point and a positive exponent. It decodes to a text if not. -/
theorem canonical_decodes_iff (d : Decimal) (hscale : d.scale < 2 ^ 63)
    (hadjusted : d.adjusted < 2 ^ 63) :
    (ofLiteral ("+" ++ d.canonical ++ "+") = .number d ↔
      0 ≤ d.scale ∧ -6 ≤ d.adjusted ∨ d.scale < 0 ∧ 10 ≤ d.unscaled.natAbs) ∧
    (ofLiteral ("+" ++ d.canonical ++ "+") = .number d ∨
      ofLiteral ("+" ++ d.canonical ++ "+") = .text d.canonical) := by
  have hliteral : ofLiteral ("+" ++ d.canonical ++ "+") = ofInner d.canonical :=
    ofLiteral_nameWord d.canonical
  have hnumber : Decimal.ofNumeral? d.canonicalChars = some d →
      ofInner d.canonical = .number d := by
    intro hread
    apply ofInner_number
    rw [Decimal.canonical, String.toList_ofList, hread]
  rw [hliteral]
  -- No exponent, an exponent behind a fraction, or a form that is no numeral.
  by_cases hplain : d.isPlain = true
  · have hdecodes := hnumber (Decimal.ofNumeral?_canonicalChars_plain hplain hscale)
    exact ⟨iff_of_true hdecodes (.inl ((Decimal.isPlain_iff d).mp hplain)), .inl hdecodes⟩
  by_cases hscientific : d.scale < 0 ∧ 10 ≤ d.unscaled.natAbs
  · have hdecodes := hnumber
      (Decimal.ofNumeral?_canonicalChars_scientific hscientific.1 hscientific.2 hadjusted)
    exact ⟨iff_of_true hdecodes (.inr hscientific), .inl hdecodes⟩
  · have hdecodes := ofInner_canonical_eq_text d
      (Decimal.ofNumeral?_canonicalChars_eq_none hplain (by omega))
    refine ⟨iff_of_false ?_ ?_, .inr hdecodes⟩
    · rw [hdecodes]
      exact Value.noConfusion
    · rintro (h | h)
      · exact hplain ((Decimal.isPlain_iff d).mpr h)
      · exact hscientific h

/-- Of two decimals of scale `-2`, the one with a digit to put behind the point comes back. -/
theorem canonical_decodes_hundreds :
    ((⟨15, -2⟩ : Decimal).scale < 2 ^ 63 ∧ (⟨15, -2⟩ : Decimal).adjusted < 2 ^ 63 ∧
      ofLiteral "+1.5E+3+" = .number ⟨15, -2⟩) ∧
    ((⟨1, -2⟩ : Decimal).scale < 2 ^ 63 ∧ (⟨1, -2⟩ : Decimal).adjusted < 2 ^ 63 ∧
      ofLiteral "+1E+2+" = .text "1E+2") := by
  have hmany : (⟨15, -2⟩ : Decimal).canonical = "1.5E+3" := by decide +kernel
  have hone : (⟨1, -2⟩ : Decimal).canonical = "1E+2" := by decide +kernel
  refine ⟨⟨by decide, by decide +kernel, ?_⟩, by decide, by decide +kernel, ?_⟩
  · have hdecodes := canonical_decodes_iff ⟨15, -2⟩ (by decide) (by decide +kernel)
    rw [hmany] at hdecodes
    exact hdecodes.1.mpr (.inr ⟨by decide, by decide⟩)
  · have hdecodes := canonical_decodes_iff ⟨1, -2⟩ (by decide) (by decide +kernel)
    rw [hone] at hdecodes
    exact hdecodes.2.resolve_left (mt hdecodes.1.mp (by decide +kernel))

end Value

end PiScript
