import PiScript.Machine
import PiScript.Proofs.Text.Lines
import PiScript.Proofs.Value.Literal

/-!
# Values without blanks

No word of a program holds a blank, and no operation brings one in: numbers, truth values and null
are written without blanks, a sum of texts joins what both sides write, and a character of a text
is one of its characters. Whatever is computed from operands of a program, and from variables
without blanks, is therefore written without blanks.
-/

namespace PiScript

namespace Text

def Unbroken (s : String) : Prop :=
  ∀ c ∈ s.toList, isBlank c = false

theorem Unbroken.append {s t : String} (hs : Unbroken s) (ht : Unbroken t) : Unbroken (s ++ t) := by
  unfold Unbroken
  rw [String.toList_append]
  exact List.forall_mem_append.mpr ⟨hs, ht⟩

theorem Unbroken.feed_not_mem {s : String} (h : Unbroken s) : '\n' ∉ s.toList :=
  feed_not_mem_of_not_blank h

end Text

namespace Value

def Unbroken (v : Value) : Prop :=
  Text.Unbroken v.render

theorem unbroken_number (d : Decimal) : (number d).Unbroken := by
  show ∀ c ∈ (String.ofList d.canonicalChars).toList, _
  rw [String.toList_ofList]
  exact d.not_blank_canonicalChars

theorem unbroken_truth (b : Bool) : (truth b).Unbroken := by
  have hword : (truth b).WellFormed := trivial
  exact not_blank_inner hword

theorem unbroken_null : null.Unbroken := by
  have hword : null.WellFormed := trivial
  exact not_blank_inner hword

theorem WellFormed.unbroken {v : Value} (h : v.WellFormed) : v.Unbroken := by
  cases v with
  | text s => exact IsName.not_blank h
  | number d => exact unbroken_number d
  | truth b => exact unbroken_truth b
  | null => exact unbroken_null

theorem Unbroken.add? {l r v : Value} (hl : l.Unbroken) (hr : r.Unbroken)
    (h : Value.add? l r = some v) : v.Unbroken := by
  -- A text joins what the other side writes; a number in front of a text is written out first.
  unfold Value.add? at h
  split at h
  · cases h
    exact Text.Unbroken.append hl hr
  · cases h
    exact unbroken_number _
  · cases h
    exact Text.Unbroken.append hl hr
  · cases h

theorem exists_of_onNumbers? {α : Type} {f : Decimal → Decimal → α} {l r : Value} {x : α}
    (h : onNumbers? f l r = some x) : ∃ a b, f a b = x := by
  unfold onNumbers? at h
  split at h
  · cases h
    exact ⟨_, _, rfl⟩
  · cases h

end Value

theorem Operator.eval?_unbroken {op : Operator} {l r v : Value} (hl : l.Unbroken) (hr : r.Unbroken)
    (h : op.eval? l r = some (.ok v)) : v.Unbroken := by
  -- Only a sum can be a text; the other operators give numbers or truth values.
  cases op with
  | add =>
    obtain ⟨w, hw, heq⟩ := Option.map_eq_some_iff.mp h
    cases heq
    exact hl.add? hr hw
  | subtract | multiply =>
    obtain ⟨a, b, heq⟩ := Value.exists_of_onNumbers? h
    cases heq
    exact Value.unbroken_number _
  | divide =>
    obtain ⟨a, b, heq⟩ := Value.exists_of_onNumbers? h
    cases hquotient : a.divide b with
    | error e =>
      rw [hquotient] at heq
      cases heq
    | ok q =>
      rw [hquotient] at heq
      cases heq
      exact Value.unbroken_number q
  | equal | notEqual =>
    obtain ⟨b, -, heq⟩ := Option.map_eq_some_iff.mp h
    cases heq
    exact Value.unbroken_truth _
  | greater | smaller =>
    obtain ⟨a, b, heq⟩ := Value.exists_of_onNumbers? h
    cases heq
    exact Value.unbroken_truth _

theorem Operator.apply_unbroken {op : Operator} {l r v : Value} (hl : l.Unbroken) (hr : r.Unbroken)
    (h : op.apply l r = .ok v) : v.Unbroken := by
  unfold apply at h
  split at h
  · cases h
  · cases h
  · next heval =>
    cases h
    exact eval?_unbroken hl hr heval

section

variable {env : Env} (henv : ∀ x v, env.get? x = some v → v.Unbroken)
include henv

theorem Env.resolve_unbroken {v : Value} (hv : v.Unbroken) : (env.resolve v).Unbroken := by
  cases v with
  | text name =>
    show ((env.get? name).getD _).Unbroken
    cases hname : env.get? name with
    | none => exact hv
    | some w => exact henv name w hname
  | _ => exact hv

theorem Expr.eval_unbroken {e : Expr} {v : Value} (he : e.WellFormed) (h : e.eval env = .ok v) :
    v.Unbroken := by
  cases e with
  | operand w =>
    cases h
    exact Env.resolve_unbroken henv (Value.WellFormed.unbroken he)
  | binary op l r =>
    exact Operator.apply_unbroken (Env.resolve_unbroken henv he.1.unbroken)
      (Env.resolve_unbroken henv he.2.unbroken) h

end

theorem Items.unbroken_of_mem {v : Value} (hv : v.Unbroken) {items : Items}
    (h : Items.ofValue? v = some items) : ∀ w ∈ items.toList, w.Unbroken := by
  cases v with
  | text s =>
    cases h
    intro w hw
    obtain ⟨c, hc, rfl⟩ := List.mem_map.mp hw
    show ∀ d ∈ (String.ofList [c]).toList, _
    rw [String.toList_ofList]
    exact List.forall_mem_singleton.mpr (hv c hc)
  | number d =>
    cases h
    intro w hw
    obtain ⟨i, -, rfl⟩ := List.mem_map.mp hw
    exact Value.unbroken_number _
  | truth b => cases h
  | null => cases h

end PiScript
