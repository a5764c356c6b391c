import Mathlib.Data.List.TakeWhile
import PiScript.Decimal.Numeral

/-!
# The grammar of numerals

A numeral is an optional minus sign and digits, then possibly a point and more digits, and behind
those possibly an exponent with a plus sign. Reading accepts exactly the texts of this grammar and
cuts them into their parts, so a text has at most one reading (`read?_eq_some_iff`).
-/

namespace PiScript

section

variable {α : Type} {p : α → Bool} {as bs : List α} (has : ∀ a ∈ as, p a = true)
  (hbs : ∀ b ∈ bs.head?, p b = false)

include has hbs

theorem takeWhile_append_stop : (as ++ bs).takeWhile p = as := by
  rw [List.takeWhile_append_of_pos has]
  cases bs with
  | nil => exact List.append_nil as
  | cons b bs => rw [List.takeWhile_cons_of_neg (by simp [hbs b rfl]), List.append_nil]

theorem dropWhile_append_stop : (as ++ bs).dropWhile p = bs := by
  rw [List.dropWhile_append_of_pos has]
  cases bs with
  | nil => rfl
  | cons b bs => exact List.dropWhile_cons_of_neg (by simp [hbs b rfl])

end

/-! ## Digits -/

namespace Decimal

def AllDigits (ds : List Char) : Prop :=
  ∀ c ∈ ds, c.isDigit = true

theorem allDigits_append {ds es : List Char} :
    AllDigits (ds ++ es) ↔ AllDigits ds ∧ AllDigits es :=
  List.forall_mem_append

end Decimal

namespace Numeral

open Decimal (AllDigits)

structure IsDigits (ds : List Char) : Prop where
  ne_nil : ds ≠ []
  all : AllDigits ds

theorem IsDigits.head_ne_minus {ds : List Char} (h : IsDigits ds) (rest : List Char) :
    ∀ c ∈ (ds ++ rest).head?, c ≠ '-' := by
  obtain ⟨d, ds, rfl⟩ := List.exists_cons_of_ne_nil h.ne_nil
  have hd : d ≠ '-' := by
    rintro rfl
    exact absurd (h.all '-' List.mem_cons_self) (by decide)
  simpa using hd

theorem spanDigits_append {ds rest : List Char} (h : AllDigits ds)
    (hrest : ∀ c ∈ rest.head?, c.isDigit = false) : spanDigits (ds ++ rest) = (ds, rest) := by
  rw [spanDigits, takeWhile_append_stop h hrest, dropWhile_append_stop h hrest]

theorem spanDigits_eq {cs ds rest : List Char} (h : spanDigits cs = (ds, rest)) :
    cs = ds ++ rest ∧ AllDigits ds := by
  obtain ⟨rfl, rfl⟩ := Prod.mk.inj h
  exact ⟨List.takeWhile_append_dropWhile.symm, fun c hc => List.mem_takeWhile_imp hc⟩

/-! ## The grammar -/

def sign (negative : Bool) : List Char :=
  if negative then ['-'] else []

/-- The text is digits with at most one point between them. Together they write `size`, and `places`
of them stand behind the point. -/
inductive Mantissa : (cs : List Char) → (size places : Nat) → Prop where
  | whole {I : List Char} (hI : IsDigits I) : Mantissa I (valueOf I) 0
  | fraction {I F : List Char} (hI : IsDigits I) (hF : IsDigits F) :
      Mantissa (I ++ '.' :: F) (valueOf (I ++ F)) F.length

theorem Mantissa.head_ne_minus {cs : List Char} {size places : Nat} (h : Mantissa cs size places)
    (rest : List Char) : ∀ c ∈ (cs ++ rest).head?, c ≠ '-' := by
  cases h with
  | whole hI => exact hI.head_ne_minus rest
  | fraction hI hF =>
    rw [List.append_assoc]
    exact hI.head_ne_minus _

/-- The text is a numeral with the given parts: `I`, `I.F` or `I.Fe+X` behind a sign. -/
inductive Writes : List Char → Numeral → Prop where
  | whole (negative : Bool) {I : List Char} (hI : IsDigits I) :
      Writes (sign negative ++ I) ⟨negative, I, [], []⟩
  | fraction (negative : Bool) {I F : List Char} (hI : IsDigits I) (hF : IsDigits F) :
      Writes (sign negative ++ (I ++ '.' :: F)) ⟨negative, I, F, []⟩
  | exponent (negative : Bool) {I F X : List Char} {mark : Char} (hI : IsDigits I)
      (hF : IsDigits F) (hmark : mark = 'e' ∨ mark = 'E') (hX : IsDigits X) :
      Writes (sign negative ++ (I ++ '.' :: (F ++ mark :: '+' :: X))) ⟨negative, I, F, X⟩

theorem isExponentMark_iff (c : Char) : isExponentMark c = true ↔ c = 'e' ∨ c = 'E' := by
  simp [isExponentMark]

/-! ## What is read is a numeral -/

theorem writes_of_readTail {negative : Bool} {I cs : List Char} {n : Numeral} (hI : IsDigits I)
    (h : readTail negative I cs = some n) : Writes (sign negative ++ (I ++ cs)) n := by
  unfold readTail at h
  split at h
  -- Nothing follows, or a point with digits behind it; these end the text or an exponent follows.
  · cases h
    rw [List.append_nil]
    exact .whole negative hI
  · split at h
    · cases h
    · next F hne hspan =>
      cases h
      obtain ⟨rfl, hF⟩ := spanDigits_eq hspan
      rw [List.append_nil]
      exact .fraction negative hI ⟨hne, hF⟩
    · next F mark X hne hspan =>
      obtain ⟨rfl, hF⟩ := spanDigits_eq hspan
      split at h
      · next hpower =>
        cases h
        simp only [Bool.and_eq_true, Bool.not_eq_true', List.isEmpty_eq_false_iff,
          isExponentMark_iff, List.all_eq_true] at hpower
        exact .exponent negative hI ⟨hne, hF⟩ hpower.1.1 ⟨hpower.1.2, hpower.2⟩
      · cases h
    · cases h
  · cases h

theorem writes_of_readUnsigned {negative : Bool} {cs : List Char} {n : Numeral}
    (h : readUnsigned negative cs = some n) : Writes (sign negative ++ cs) n := by
  unfold readUnsigned at h
  split at h
  · cases h
  · next I rest hne hspan =>
    obtain ⟨rfl, hI⟩ := spanDigits_eq hspan
    exact writes_of_readTail ⟨hne, hI⟩ h

theorem writes_of_read? {cs : List Char} {n : Numeral} (h : read? cs = some n) : Writes cs n := by
  unfold read? at h
  split at h
  · exact writes_of_readUnsigned h
  · exact writes_of_readUnsigned h

/-! ## Every numeral is read -/

theorem read?_sign_append {negative : Bool} {cs : List Char} (h : ∀ c ∈ cs.head?, c ≠ '-') :
    read? (sign negative ++ cs) = readUnsigned negative cs := by
  cases negative with
  | true => rfl
  | false =>
    show read? cs = _
    unfold read?
    split
    · exact absurd rfl (h '-' rfl)
    · rfl

theorem readUnsigned_append {negative : Bool} {I rest : List Char} (hI : IsDigits I)
    (hrest : ∀ c ∈ rest.head?, c.isDigit = false) :
    readUnsigned negative (I ++ rest) = readTail negative I rest := by
  obtain ⟨d, ds, rfl⟩ := List.exists_cons_of_ne_nil hI.ne_nil
  rw [readUnsigned, spanDigits_append hI.all hrest]

theorem readTail_exponent {negative : Bool} {I F X : List Char} {mark : Char} (hF : IsDigits F)
    (hmark : mark = 'e' ∨ mark = 'E') (hX : IsDigits X) :
    readTail negative I ('.' :: (F ++ mark :: '+' :: X)) = some ⟨negative, I, F, X⟩ := by
  obtain ⟨d, ds, rfl⟩ := List.exists_cons_of_ne_nil hF.ne_nil
  have hstop : ∀ c ∈ (mark :: '+' :: X).head?, c.isDigit = false := by
    rcases hmark with rfl | rfl <;> simp
  have hpower : (isExponentMark mark && !X.isEmpty && X.all Char.isDigit) = true := by
    simp only [Bool.and_eq_true, Bool.not_eq_true', List.isEmpty_eq_false_iff, isExponentMark_iff,
      List.all_eq_true]
    exact ⟨⟨hmark, hX.ne_nil⟩, hX.all⟩
  rw [readTail, spanDigits_append hF.all hstop]
  exact if_pos hpower

theorem read?_of_writes {cs : List Char} {n : Numeral} (h : Writes cs n) : read? cs = some n := by
  cases h with
  | @whole negative I hI =>
    rw [← List.append_nil I, read?_sign_append (hI.head_ne_minus []),
      readUnsigned_append hI (by simp), List.append_nil]
    rfl
  | @fraction negative I F hI hF =>
    obtain ⟨d, ds, rfl⟩ := List.exists_cons_of_ne_nil hF.ne_nil
    rw [read?_sign_append (hI.head_ne_minus _), readUnsigned_append hI (by simp), readTail,
      ← List.append_nil (d :: ds), spanDigits_append hF.all (by simp), List.append_nil]
  | exponent negative hI hF hmark hX =>
    rw [read?_sign_append (hI.head_ne_minus _), readUnsigned_append hI (by simp),
      readTail_exponent hF hmark hX]

/-- Reading cuts exactly the numerals into their parts. -/
theorem read?_eq_some_iff {cs : List Char} {n : Numeral} : read? cs = some n ↔ n.Writes cs :=
  ⟨writes_of_read?, read?_of_writes⟩

theorem Mantissa.exists_numeral {cs : List Char} {size places : Nat} (h : Mantissa cs size places)
    (negative : Bool) :
    ∃ n : Numeral, n.Writes (sign negative ++ cs) ∧ n.exponent = [] ∧
      n.unscaled = (if negative then -(size : Int) else size) ∧ n.scale = places := by
  cases h with
  | whole hI =>
    refine ⟨⟨negative, cs, [], []⟩, .whole negative hI, rfl, ?_, rfl⟩
    rw [unscaled, List.append_nil]
  | fraction hI hF => exact ⟨_, .fraction negative hI hF, rfl, rfl, Int.sub_zero _⟩

end Numeral

theorem Decimal.ofNumeral?_eq_some_iff {cs : List Char} {d : Decimal} :
    ofNumeral? cs = some d ↔
      ∃ n : Numeral, n.Writes cs ∧ n.inRange = true ∧ (⟨n.unscaled, n.scale⟩ : Decimal) = d := by
  simp only [ofNumeral?, Option.bind_eq_some_iff, Numeral.read?_eq_some_iff, Numeral.decimal?,
    Option.ite_none_right_eq_some, Option.some.injEq]

end PiScript
