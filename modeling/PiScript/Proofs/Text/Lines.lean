import Mathlib.Data.List.Basic
import Mathlib.Data.List.Induction
import PiScript.Text.Blank
import PiScript.Text.Lines
import PiScript.Token

/-!
# Places and lines

Two things count the lines of a text: the place behind a run of characters, and the lines that the
text is cut into. They agree wherever a word stands: the word is found in the line of its place, at
the column of its place (`exists_line_of_word`). At the end of a text the place may lie behind every
line, and where it does not, it lies behind the last character of its line (`length_lt_col`).
-/

namespace PiScript

namespace Position

theorem line_le_line_after (p : Position) (cs : List Char) : p.line ≤ (p.after cs).line := by
  induction cs generalizing p with
  | nil => exact Nat.le_refl _
  | cons c cs ih =>
    have hnext : p.line ≤ (p.next c).line := by
      unfold next
      split
      · exact Nat.le_succ _
      · exact Nat.le_refl _
    exact Nat.le_trans hnext (ih (p.next c))

theorem after_of_no_feed {cs : List Char} (h : '\n' ∉ cs) (n col : Nat) :
    (mk n col).after cs = ⟨n, col + cs.length⟩ := by
  induction cs generalizing col with
  | nil => rfl
  | cons c cs ih =>
    rw [List.mem_cons, not_or] at h
    have hnext : (mk n col).next c = ⟨n, col + 1⟩ := by
      rw [next, if_neg (fun hc => h.1 hc.symm)]
    rw [after_cons, hnext, ih h.2, List.length_cons]
    congr 1
    omega

theorem after_append_feed {line : List Char} (h : '\n' ∉ line) (n : Nat) (rest : List Char) :
    (mk n 1).after (line ++ '\n' :: rest) = (mk (n + 1) 1).after rest := by
  rw [after_append, after_of_no_feed h]
  rfl

end Position

namespace Text

open Position

/-! ## A text from its first line on -/

/-- A text is a line, or a line and a text behind its line feed. -/
@[elab_as_elim]
theorem line_induction {motive : List Char → Prop} (last : ∀ line, '\n' ∉ line → motive line)
    (feed : ∀ line rest, '\n' ∉ line → motive rest → motive (line ++ '\n' :: rest))
    (cs : List Char) : motive cs := by
  induction hlen : cs.length using Nat.strongRecOn generalizing cs with
  | ind len ih =>
    subst hlen
    by_cases hfeed : '\n' ∈ cs
    · obtain ⟨line, rest, rfl, hline⟩ := List.eq_append_cons_of_mem hfeed
      apply feed line rest hline
      apply ih rest.length _ rest rfl
      rw [List.length_append, List.length_cons]
      omega
    · exact last cs hfeed

theorem splitAtFeeds_of_no_feed {line : List Char} (h : '\n' ∉ line) :
    splitAtFeeds line = [line] := by
  induction line with
  | nil => rfl
  | cons c line ih =>
    rw [List.mem_cons, not_or] at h
    rw [splitAtFeeds, if_neg (Ne.symm h.1), ih h.2]

theorem splitAtFeeds_append_feed {line : List Char} (h : '\n' ∉ line) (rest : List Char) :
    splitAtFeeds (line ++ '\n' :: rest) = line :: splitAtFeeds rest := by
  induction line with
  | nil => rfl
  | cons c line ih =>
    rw [List.mem_cons, not_or] at h
    rw [List.cons_append, splitAtFeeds, if_neg (Ne.symm h.1), ih h.2]

theorem splitAtFeeds_ne_nil (cs : List Char) : splitAtFeeds cs ≠ [] := by
  induction cs using line_induction with
  | last line hline => simp [splitAtFeeds_of_no_feed hline]
  | feed line rest hline ih => simp [splitAtFeeds_append_feed hline]

theorem lines_of_no_feed {line : List Char} (h : '\n' ∉ line) :
    lines line = if line.isEmpty then [] else [line] := by
  rw [lines, splitAtFeeds_of_no_feed h, ofPieces]

theorem lines_append_feed {line : List Char} (h : '\n' ∉ line) (rest : List Char) :
    lines (line ++ '\n' :: rest) = dropReturn line :: lines rest := by
  rw [lines, lines, splitAtFeeds_append_feed h]
  obtain ⟨piece, pieces, heq⟩ := List.exists_cons_of_ne_nil (splitAtFeeds_ne_nil rest)
  rw [heq, ofPieces]
  simp

/-! ## What is left of a line -/

theorem mem_of_mem_dropReturn {line : List Char} {c : Char} (h : c ∈ dropReturn line) :
    c ∈ line := by
  unfold dropReturn at h
  split at h
  · exact (List.dropLast_sublist line).mem h
  · exact h

/-- Only a carriage return at the very end is lost. -/
theorem prefix_dropReturn {front : List Char} (h : front.getLast? ≠ some '\r') (back : List Char) :
    front <+: dropReturn (front ++ back) := by
  unfold dropReturn
  split
  · rename_i hlast
    cases back using List.reverseRecOn with
    | nil =>
      rw [List.append_nil] at hlast
      exact absurd hlast h
    | append_singleton back c =>
      rw [← List.append_assoc, List.dropLast_concat]
      exact List.prefix_append front back
  · exact List.prefix_append front back

theorem feed_not_mem_of_mem_lines {cs line : List Char} (h : line ∈ lines cs) : '\n' ∉ line := by
  induction cs using line_induction with
  | last last hlast =>
    rw [lines_of_no_feed hlast] at h
    split at h
    · cases h
    · rwa [List.mem_singleton.mp h]
  | feed first rest hfirst ih =>
    rw [lines_append_feed hfirst] at h
    rcases List.mem_cons.mp h with rfl | h
    · exact fun hfeed => hfirst (mem_of_mem_dropReturn hfeed)
    · exact ih h

/-! ## The line of a place -/

/-- Below the first line, a text has the lines of what stands behind the first line feed. -/
theorem getElem?_lines_append_feed {line rest : List Char} (h : '\n' ∉ line) {n m : Nat}
    (hlt : n < m) : (lines (line ++ '\n' :: rest))[m - n]? = (lines rest)[m - (n + 1)]? := by
  have hindex : m - n = m - (n + 1) + 1 := by omega
  rw [lines_append_feed h, hindex, List.getElem?_cons_succ]

theorem feed_not_mem_of_not_blank {cs : List Char} (h : ∀ c ∈ cs, isBlank c = false) :
    '\n' ∉ cs := by
  intro hfeed
  exact absurd (h '\n' hfeed) (by decide)

section Word

variable {word : List Char} (hne : word ≠ []) (hword : ∀ c ∈ word, isBlank c = false)

include hne hword

/-- A word of the first line is found there, behind the characters before it. -/
theorem exists_first_line {before : List Char} (hbefore : '\n' ∉ before) (after : List Char) :
    ∃ line, (lines (before ++ (word ++ after)))[0]? = some line ∧
      word <+: line.drop before.length := by
  have hfront : '\n' ∉ before ++ word :=
    List.not_mem_append hbefore (feed_not_mem_of_not_blank hword)
  -- The word ends in no carriage return, so dropping one at the line's end leaves it whole.
  have hlast : (before ++ word).getLast? ≠ some '\r' := by
    rw [List.getLast?_append_of_ne_nil before hne]
    intro hreturn
    exact absurd (hword '\r' (List.mem_of_getLast? hreturn)) (by decide)
  have hfound : ∀ line, before ++ word <+: line → word <+: line.drop before.length := by
    rintro line ⟨back, rfl⟩
    rw [List.append_assoc, List.drop_left]
    exact List.prefix_append word back
  rw [← List.append_assoc]
  cases after using line_induction with
  | last after hafter =>
    have hall : '\n' ∉ before ++ word ++ after := List.not_mem_append hfront hafter
    have hempty : ¬(before ++ word ++ after).isEmpty = true := by simp [hne]
    rw [lines_of_no_feed hall, if_neg hempty]
    exact ⟨_, rfl, hfound _ (List.prefix_append _ _)⟩
  | feed after rest hafter =>
    have hall : '\n' ∉ before ++ word ++ after := List.not_mem_append hfront hafter
    rw [← List.append_assoc, lines_append_feed hall]
    exact ⟨_, rfl, hfound _ (prefix_dropReturn hlast after)⟩

/-- A word is found in the line of its place, at the column of its place. -/
theorem exists_line_of_word (n : Nat) (before after : List Char) {p : Position}
    (hp : p = (Position.mk n 1).after before) :
    ∃ line, (lines (before ++ (word ++ after)))[p.line - n]? = some line ∧ 1 ≤ p.col ∧
      word <+: line.drop (p.col - 1) := by
  subst hp
  induction before using line_induction generalizing n with
  | last before hbefore =>
    obtain ⟨line, hline, hfound⟩ := exists_first_line hne hword hbefore after
    refine ⟨line, ?_, ?_, ?_⟩
    · rw [after_of_no_feed hbefore, Nat.sub_self, hline]
    · rw [after_of_no_feed hbefore]
      exact Nat.le_add_right 1 _
    · rwa [after_of_no_feed hbefore, Nat.add_sub_cancel_left]
  | feed first rest hfirst ih =>
    obtain ⟨line, hline, hcol, hfound⟩ := ih (n + 1)
    have hlt : n < ((Position.mk (n + 1) 1).after rest).line :=
      line_le_line_after ⟨n + 1, 1⟩ rest
    refine ⟨line, ?_, ?_, ?_⟩
    · rw [List.append_assoc, List.cons_append, after_append_feed hfirst,
        getElem?_lines_append_feed hfirst hlt, hline]
    · rwa [after_append_feed hfirst]
    · rwa [after_append_feed hfirst]

end Word

/-- The place behind a text lies behind its line, if there is such a line. -/
theorem length_lt_col (n : Nat) (cs : List Char) {line : List Char} {p : Position}
    (hp : p = (Position.mk n 1).after cs) (h : (lines cs)[p.line - n]? = some line) :
    line.length < p.col := by
  subst hp
  induction cs using line_induction generalizing n with
  | last cs hcs =>
    rw [after_of_no_feed hcs] at h ⊢
    rw [Nat.sub_self, lines_of_no_feed hcs] at h
    split at h
    · cases h
    · obtain rfl := Option.some.inj h
      show cs.length < 1 + cs.length
      omega
  | feed first rest hfirst ih =>
    have hlt : n < ((Position.mk (n + 1) 1).after rest).line :=
      line_le_line_after ⟨n + 1, 1⟩ rest
    rw [after_append_feed hfirst] at h ⊢
    rw [getElem?_lines_append_feed hfirst hlt] at h
    exact ih (n + 1) h

end Text

end PiScript
