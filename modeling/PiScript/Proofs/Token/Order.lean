import PiScript.Proofs.Token.Layout

/-!
# The order of tokens

The tokens of a text stand one behind the other: each starts at a later place than the one before
it, on a later line or further right on the same one. So a place belongs to at most one token. The
last token is the end of file.
-/

namespace PiScript

namespace Position

def Before (p q : Position) : Prop :=
  p.line < q.line ∨ p.line = q.line ∧ p.col < q.col

theorem Before.trans {p q r : Position} (h : p.Before q) (h' : q.Before r) : p.Before r := by
  unfold Before at *
  omega

theorem Before.ne {p q : Position} (h : p.Before q) : p ≠ q := by
  rintro rfl
  unfold Before at h
  omega

theorem before_next (p : Position) (c : Char) : p.Before (p.next c) := by
  unfold Before next
  by_cases hc : c = '\n'
  · rw [if_pos hc]
    left
    show p.line < p.line + 1
    omega
  · rw [if_neg hc]
    right
    show p.line = p.line ∧ p.col < p.col + 1
    omega

theorem after_eq_or_before (p : Position) (cs : List Char) :
    p.after cs = p ∨ p.Before (p.after cs) := by
  induction cs generalizing p with
  | nil => exact .inl rfl
  | cons c cs ih =>
    right
    rw [after_cons]
    rcases ih (p.next c) with h | h
    · rw [h]
      exact before_next p c
    · exact (before_next p c).trans h

theorem before_after {cs : List Char} (h : cs ≠ []) (p : Position) : p.Before (p.after cs) := by
  cases cs with
  | nil => exact absurd rfl h
  | cons c cs =>
    rw [after_cons]
    rcases after_eq_or_before (p.next c) cs with h | h
    · rw [h]
      exact before_next p c
    · exact (before_next p c).trans h

/-- What comes before a place also comes before every place behind it. -/
theorem Before.after {p q : Position} (h : p.Before q) (cs : List Char) : p.Before (q.after cs) := by
  rcases after_eq_or_before q cs with hq | hq
  · rwa [hq]
  · exact h.trans hq

end Position

namespace Token

theorem takeWord_ne_nil {cs tail : List Char} {c : Char}
    (h : cs.dropWhile Text.isBlank = c :: tail) : takeWord (c :: tail) ≠ [] := by
  have hhead := List.head?_dropWhile_not Text.isBlank cs
  have hc : Text.isBlank c = false := by simpa [h] using hhead
  exact (isWord_takeWord hc tail).1

/-- No token starts before the text that it is scanned from. -/
theorem before_of_mem_scan {p q : Position} {cs : List Char} (h : q.Before p) :
    ∀ t ∈ scan p cs, q.Before t.pos := by
  fun_induction scan p cs with
  | case1 p cs start hdrop =>
    intro t ht
    rw [List.mem_singleton.mp ht]
    exact h.after _
  | case2 p cs start c tail hdrop word rest behind hcomment ih =>
    exact ih (((h.after _).after _).after _)
  | case3 p cs start c tail hdrop word rest behind hcomment kind token hmal ih =>
    intro t ht
    rcases List.mem_cons.mp ht with rfl | ht
    · exact h.after _
    · exact ih (((h.after _).after _).after _) t ht
  | case4 p cs start c tail hdrop word rest behind hcomment kind token hmal ih =>
    intro t ht
    rcases List.mem_cons.mp ht with rfl | ht
    · exact h.after _
    · exact ih ((h.after _).after _) t ht

theorem scan_pairwise (p : Position) (cs : List Char) :
    (scan p cs).Pairwise fun t u => t.pos.Before u.pos := by
  fun_induction scan p cs with
  | case1 p cs start hdrop => exact List.pairwise_singleton _ _
  | case2 p cs start c tail hdrop word rest behind hcomment ih => exact ih
  | case3 p cs start c tail hdrop word rest behind hcomment kind token hmal ih =>
    have hbehind : start.Before behind := Position.before_after (takeWord_ne_nil hdrop) start
    exact List.pairwise_cons.mpr ⟨before_of_mem_scan (hbehind.after _), ih⟩
  | case4 p cs start c tail hdrop word rest behind hcomment kind token hmal ih =>
    have hbehind : start.Before behind := Position.before_after (takeWord_ne_nil hdrop) start
    exact List.pairwise_cons.mpr ⟨before_of_mem_scan hbehind, ih⟩

/-- A token of a text shares its place with no other. -/
theorem pos_ne_of_lex_eq {s : String} {before after : List Token} {t : Token}
    (h : lex s = before ++ t :: after) : ∀ u ∈ before ++ after, u.pos ≠ t.pos := by
  have hpairs : (lex s).Pairwise fun t u => t.pos.Before u.pos :=
    List.Pairwise.filter _ (scan_pairwise .start s.toList)
  rw [h, List.pairwise_append, List.pairwise_cons] at hpairs
  obtain ⟨-, ⟨hafter, -⟩, hbefore⟩ := hpairs
  intro u hu
  rcases List.mem_append.mp hu with hu | hu
  · exact (hbefore u hu t List.mem_cons_self).ne
  · exact (hafter u hu).ne.symm

theorem exists_lex_eq (s : String) : ∃ ts stop, lex s = ts ++ [stop] ∧ stop.kind = .eof :=
  ⟨linesTokens 1 (s.toList.splitOn '\n'), endToken s.toList, lex_eq s, rfl⟩

end Token

end PiScript
