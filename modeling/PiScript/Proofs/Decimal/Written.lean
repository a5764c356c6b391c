import PiScript.Proofs.Decimal.Plain

/-!
# What a written number stands for

A number may be written with an optional minus sign, digits with at most one point among them, and
behind those possibly an exponent with a sign of its own. All digits in front of the exponent write
the unscaled integer, and the scale is the number of digits behind the point less the exponent.

Read like this, the canonical form of a decimal gives the decimal back, so no two decimals have the
same one, and the plain form gives the same number (`canonical_determines_decimal`). Numerals of the
source language are read as the decimals they stand for.
-/

namespace PiScript

namespace Decimal

open Numeral

/-! ## Reading written numbers -/

def natural? (ds : List Char) : Option Nat :=
  if !ds.isEmpty && ds.all Char.isDigit then some (valueOf ds) else none

def integer? : List Char → Option Int
  | '-' :: ds => (natural? ds).map fun n : Nat => -(n : Int)
  | '+' :: ds => (natural? ds).map fun n : Nat => (n : Int)
  | ds => (natural? ds).map fun n : Nat => (n : Int)

/-- Reads digits with at most one point among them, as the number that they write together and the
number of digits behind the point. -/
def mantissa? (cs : List Char) : Option (Nat × Nat) :=
  let whole := cs.takeWhile (· != '.')
  let fraction := (cs.dropWhile (· != '.')).tail
  (natural? (whole ++ fraction)).map fun size => (size, fraction.length)

/-- Reads an exponent behind its mark. An absent one is zero. -/
def exponent? : List Char → Option Int
  | [] => some 0
  | _ :: cs => integer? cs

def ofUnsigned? (negative : Bool) (cs : List Char) : Option Decimal := do
  let (size, places) ← mantissa? (cs.takeWhile (!isExponentMark ·))
  let exponent ← exponent? (cs.dropWhile (!isExponentMark ·))
  return ⟨if negative then -(size : Int) else size, places - exponent⟩

def ofWritten? : List Char → Option Decimal
  | '-' :: cs => ofUnsigned? true cs
  | cs => ofUnsigned? false cs

/-! ## Reading the parts -/

theorem natural?_of_isDigits {ds : List Char} (h : IsDigits ds) :
    natural? ds = some (valueOf ds) := by
  apply if_pos
  rw [Bool.and_eq_true, Bool.not_eq_true', List.isEmpty_eq_false_iff, List.all_eq_true]
  exact ⟨h.ne_nil, h.all⟩

theorem mantissa?_of_mantissa {cs : List Char} {size places : Nat} (h : Mantissa cs size places) :
    mantissa? cs = some (size, places) := by
  have hdigits : ∀ {ds : List Char}, AllDigits ds → ∀ c ∈ ds, (c != '.') = true := by
    intro ds hds c hc
    rw [bne_iff_ne]
    rintro rfl
    exact absurd (hds '.' hc) (by decide)
  cases h with
  | whole hI =>
    have htake : cs.takeWhile (· != '.') = cs := List.takeWhile_eq_self_iff.mpr (hdigits hI.all)
    have hdrop : cs.dropWhile (· != '.') = [] := List.dropWhile_eq_nil_iff.mpr (hdigits hI.all)
    simp only [mantissa?, htake, hdrop, List.tail_nil, List.append_nil, natural?_of_isDigits hI,
      Option.map_some, List.length_nil]
  | @fraction I F hI hF =>
    have hboth : IsDigits (I ++ F) :=
      ⟨List.append_ne_nil_of_left_ne_nil hI.ne_nil F, allDigits_append.mpr ⟨hI.all, hF.all⟩⟩
    have hpoint : ∀ c ∈ ('.' :: F).head?, (c != '.') = false := by simp
    simp only [mantissa?, takeWhile_append_stop (hdigits hI.all) hpoint,
      dropWhile_append_stop (hdigits hI.all) hpoint, List.tail_cons, natural?_of_isDigits hboth,
      Option.map_some]

theorem not_mark_of_mantissa {cs : List Char} {size places : Nat} (h : Mantissa cs size places) :
    ∀ c ∈ cs, (!isExponentMark c) = true := by
  have hdigits : ∀ {ds : List Char}, AllDigits ds → ∀ c ∈ ds, (!isExponentMark c) = true := by
    intro ds hds c hc
    rw [Bool.not_eq_true', ← Bool.not_eq_true, isExponentMark_iff]
    rintro (rfl | rfl) <;> exact absurd (hds _ hc) (by decide)
  cases h with
  | whole hI => exact hdigits hI.all
  | fraction hI hF =>
    exact List.forall_mem_append.mpr
      ⟨hdigits hI.all, List.forall_mem_cons.mpr ⟨by decide, hdigits hF.all⟩⟩

section

variable {cs power : List Char} {size places : Nat} {x : Int} (hcs : Mantissa cs size places)
  (hmark : ∀ c ∈ power.head?, isExponentMark c = true) (hx : exponent? power = some x)

include hcs hmark hx

theorem ofWritten?_sign_append (negative : Bool) :
    ofWritten? (sign negative ++ (cs ++ power)) =
      some ⟨if negative then -(size : Int) else size, places - x⟩ := by
  have hstop : ∀ c ∈ power.head?, (!isExponentMark c) = false := by
    intro c hc
    rw [hmark c hc]
    rfl
  have hunsigned : ofUnsigned? negative (cs ++ power) =
      some ⟨if negative then -(size : Int) else size, places - x⟩ := by
    rw [ofUnsigned?, takeWhile_append_stop (not_mark_of_mantissa hcs) hstop,
      dropWhile_append_stop (not_mark_of_mantissa hcs) hstop, mantissa?_of_mantissa hcs, hx]
    rfl
  rw [← hunsigned]
  cases negative with
  | true => rfl
  | false =>
    -- The first character is a digit, so no sign is read.
    show ofWritten? (cs ++ power) = _
    unfold ofWritten?
    split
    · next heq => exact absurd rfl (hcs.head_ne_minus power '-' (by rw [heq]; rfl))
    · rfl

end

/-- Without an exponent, the digits behind the point are the scale. -/
theorem ofWritten?_sign_mantissa {cs : List Char} {size places : Nat} (hcs : Mantissa cs size places)
    (negative : Bool) :
    ofWritten? (sign negative ++ cs) =
      some ⟨if negative then -(size : Int) else size, places⟩ := by
  have hread : ofWritten? (sign negative ++ (cs ++ [])) =
      some ⟨if negative then -(size : Int) else size, places - 0⟩ :=
    ofWritten?_sign_append hcs (by simp) rfl negative
  rwa [List.append_nil, Int.sub_zero] at hread

theorem ofWritten?_withSign {n : Int} {cs : List Char} {places : Nat}
    (hcs : Mantissa cs n.natAbs places) : ofWritten? (withSign n cs) = some ⟨n, places⟩ := by
  rw [withSign_eq, ofWritten?_sign_mantissa hcs, signed_natAbs]

/-! ## Numerals and plain forms -/

/-- A numeral is read as the decimal that it stands for. -/
theorem ofWritten?_of_writes {cs : List Char} {n : Numeral} (h : n.Writes cs) :
    ofWritten? cs = some ⟨n.unscaled, n.scale⟩ := by
  cases h with
  | @whole negative I hI =>
    rw [ofWritten?_sign_mantissa (.whole hI), Numeral.unscaled, List.append_nil]
    rfl
  | @fraction negative I F hI hF =>
    rw [ofWritten?_sign_mantissa (.fraction hI hF), ← Int.sub_zero F.length]
    rfl
  | @exponent negative I F X mark hI hF hmark hX =>
    have hpower : exponent? (mark :: '+' :: X) = some (valueOf X : Int) := by
      rw [exponent?, integer?, natural?_of_isDigits hX, Option.map_some]
    have hread := ofWritten?_sign_append (.fraction hI hF)
      (by simpa [isExponentMark_iff] using hmark) hpower negative
    rw [List.append_assoc] at hread
    exact hread

theorem ofWritten?_plainChars (d : Decimal) :
    ofWritten? d.plainChars = some (d.extend (-d.scale).toNat) := by
  obtain ⟨cs, hplain, hcs⟩ := exists_mantissa_plain d
  rw [hplain, ofWritten?_withSign hcs, ← scale_extend_to_zero]

/-! ## Canonical forms -/

theorem isPlain_iff (d : Decimal) : d.isPlain = true ↔ 0 ≤ d.scale ∧ -6 ≤ d.adjusted := by
  rw [isPlain, Bool.and_eq_true, decide_eq_true_eq, decide_eq_true_eq, minPlainAdjusted]

theorem exponentMark_of_pos {e : Int} (h : 0 < e) :
    exponentMark e = 'E' :: '+' :: digits e.natAbs := by
  rw [exponentMark, if_neg h.ne', if_pos h]

theorem exponentMark_of_neg {e : Int} (h : e < 0) :
    exponentMark e = 'E' :: '-' :: digits e.natAbs := by
  rw [exponentMark, if_neg h.ne, if_neg h.not_gt]

theorem exists_exponentMark {e : Int} (h : e ≠ 0) : ∃ cs, exponentMark e = 'E' :: cs := by
  obtain hneg | hpos := Int.lt_or_gt_of_ne h
  · exact ⟨_, exponentMark_of_neg hneg⟩
  · exact ⟨_, exponentMark_of_pos hpos⟩

theorem exponent?_exponentMark (e : Int) : exponent? (exponentMark e) = some e := by
  have hdigits := natural?_of_isDigits (isDigits_digits e.natAbs)
  rw [valueOf_digits] at hdigits
  obtain hneg | rfl | hpos := Int.lt_trichotomy e 0
  · rw [exponentMark_of_neg hneg, exponent?, integer?, hdigits, Option.map_some]
    congr 1
    omega
  · rfl
  · rw [exponentMark_of_pos hpos, exponent?, integer?, hdigits, Option.map_some]
    congr 1
    omega

theorem head_exponentMark (e : Int) : ∀ c ∈ (exponentMark e).head?, isExponentMark c = true := by
  by_cases hzero : e = 0
  · rw [hzero]
    exact fun c hc => absurd hc (Option.not_mem_none c)
  · obtain ⟨cs, hmark⟩ := exists_exponentMark hzero
    rw [hmark]
    rintro c ⟨⟩
    rfl

theorem ofWritten?_canonicalChars (d : Decimal) : ofWritten? d.canonicalChars = some d := by
  have hds := isDigits_digits d.unscaled.natAbs
  have hvalue := valueOf_digits d.unscaled.natAbs
  unfold canonicalChars
  by_cases hplain : d.isPlain = true
  · have hscale := ((isPlain_iff d).mp hplain).1
    have hcs := mantissa_placePoint hds d.scale.toNat
    rw [hvalue] at hcs
    simp only [if_pos hplain]
    rw [ofWritten?_withSign hcs, Int.toNat_of_nonneg hscale]
  · have hread := ofWritten?_sign_append (mantissa_pointAfterFirst hds)
      (head_exponentMark d.adjusted) (exponent?_exponentMark d.adjusted) (decide (d.unscaled < 0))
    have hscale : (((digits d.unscaled.natAbs).length - 1 : Nat) : Int) - d.adjusted = d.scale := by
      have hlength := List.length_pos_iff.mpr hds.ne_nil
      rw [adjusted]
      omega
    simp only [if_neg hplain]
    rw [withSign_eq, hread, hvalue, signed_natAbs, hscale]

theorem ofWritten?_canonical (d : Decimal) : ofWritten? d.canonical.toList = some d := by
  rw [canonical, String.toList_ofList, ofWritten?_canonicalChars]

/-- The canonical form of a decimal reads as that decimal, so it is the form of no other. The plain
form reads as a decimal that is the same number. -/
theorem canonical_determines_decimal (d : Decimal) :
    ofWritten? d.canonical.toList = some d ∧
    (∀ e : Decimal, e.canonical = d.canonical → e = d) ∧
    ∃ p, ofWritten? d.plain.toList = some p ∧ p.toRat = d.toRat := by
  refine ⟨ofWritten?_canonical d, ?_, d.extend (-d.scale).toNat, ?_, toRat_extend d _⟩
  · intro e he
    have hread := ofWritten?_canonical e
    rw [he, ofWritten?_canonical d] at hread
    exact (Option.some.inj hread).symm
  · rw [plain, String.toList_ofList, ofWritten?_plainChars]

example : (⟨15, -2⟩ : Decimal).canonical = "1.5E+3" ∧ (⟨15, -2⟩ : Decimal).plain = "1500" ∧
    ofWritten? "1.5E+3".toList = some ⟨15, -2⟩ ∧ ofWritten? "1500".toList = some ⟨1500, 0⟩ := by
  decide +kernel

end Decimal

end PiScript
