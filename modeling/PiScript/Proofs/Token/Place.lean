import PiScript.Proofs.Token.Order

/-!
# Where tokens stand

A token stands in its text behind exactly the characters that lead to its place. So the line of its
place, among the lines that the text is cut into, holds its word at the column of its place
(`word_in_line`); carriage returns and the end of the text do not interfere, as neither is part of a
word. Only an end of file can have a place that no line reaches (`end_behind_line`).
-/

namespace PiScript

namespace Token

/-- The token stands in the text `cs` at its place, where `p` is the place of the first character.
Nothing stands behind an end of file. -/
def StandsIn (p : Position) (cs : List Char) (t : Token) : Prop :=
  ∃ before after, cs = before ++ (t.text.toList ++ after) ∧ t.pos = p.after before ∧
    (t.kind = .eof → t.text = "" ∧ after = [])

theorem StandsIn.behind {p : Position} {front cs : List Char} {t : Token}
    (h : StandsIn (p.after front) cs t) : StandsIn p (front ++ cs) t := by
  obtain ⟨before, after, rfl, hpos, hend⟩ := h
  refine ⟨front ++ before, after, (List.append_assoc ..).symm, ?_, hend⟩
  rw [hpos, Position.after_append]

/-! ## The first word of a text -/

section FirstWord

variable {cs tail : List Char} {c : Char} (hdrop : cs.dropWhile Text.isBlank = c :: tail)

include hdrop

theorem eq_append_first_word :
    cs = cs.takeWhile Text.isBlank ++ (takeWord (c :: tail) ++ dropWord (c :: tail)) := by
  rw [takeWord_append_dropWord, ← hdrop, List.takeWhile_append_dropWhile]

theorem StandsIn.behind_word {p : Position} {t : Token}
    (h : StandsIn ((p.after (cs.takeWhile Text.isBlank)).after (takeWord (c :: tail)))
      (dropWord (c :: tail)) t) : StandsIn p cs t := by
  rw [eq_append_first_word hdrop]
  exact h.behind.behind

theorem StandsIn.behind_line {p : Position} {t : Token}
    (h : StandsIn (((p.after (cs.takeWhile Text.isBlank)).after (takeWord (c :: tail))).after
      (takeLine (dropWord (c :: tail)))) (dropLine (dropWord (c :: tail))) t) : StandsIn p cs t := by
  have hline := h.behind
  rw [takeLine, dropLine, List.takeWhile_append_dropWhile] at hline
  exact StandsIn.behind_word hdrop hline

theorem standsIn_first_word (p : Position) :
    StandsIn p cs ⟨kindOfWord (takeWord (c :: tail)), String.ofList (takeWord (c :: tail)),
      p.after (cs.takeWhile Text.isBlank)⟩ := by
  refine ⟨_, dropWord (c :: tail), ?_, rfl, ?_⟩
  · rw [String.toList_ofList]
    exact eq_append_first_word hdrop
  · intro heof
    rw [kindOfWord_eq] at heof
    exact absurd heof (specifiedKind_ne_eof _)

end FirstWord

theorem standsIn_of_mem_scan {p : Position} {cs : List Char} :
    ∀ t ∈ scan p cs, StandsIn p cs t := by
  fun_induction scan p cs with
  | case1 p cs start hdrop =>
    intro t ht
    rw [List.mem_singleton.mp ht]
    -- Only blanks are left, and the end of file stands behind them.
    have hblanks : cs.takeWhile Text.isBlank = cs := by
      have hsplit := List.takeWhile_append_dropWhile (p := Text.isBlank) (l := cs)
      rwa [hdrop, List.append_nil] at hsplit
    refine ⟨cs, [], (List.append_nil cs).symm, ?_, fun _ => ⟨rfl, rfl⟩⟩
    show p.after (cs.takeWhile Text.isBlank) = p.after cs
    rw [hblanks]
  | case2 p cs start c tail hdrop word rest behind hcomment ih =>
    intro t ht
    exact StandsIn.behind_line hdrop (ih t ht)
  | case3 p cs start c tail hdrop word rest behind hcomment kind token hmal ih =>
    intro t ht
    rcases List.mem_cons.mp ht with rfl | ht
    · exact standsIn_first_word hdrop p
    · exact StandsIn.behind_line hdrop (ih t ht)
  | case4 p cs start c tail hdrop word rest behind hcomment kind token hmal ih =>
    intro t ht
    rcases List.mem_cons.mp ht with rfl | ht
    · exact standsIn_first_word hdrop p
    · exact StandsIn.behind_word hdrop (ih t ht)

/-! ## The line of a token -/

theorem standsIn_of_mem_lex {s : String} {t : Token} (h : t ∈ lex s) :
    StandsIn .start s.toList t :=
  standsIn_of_mem_scan t (List.mem_of_mem_filter h)

theorem isWord_of_mem_lex {s : String} {t : Token} (h : t ∈ lex s) (hkind : t.kind ≠ .eof) :
    IsWord t.text.toList := by
  rw [lex_eq] at h
  rcases List.mem_append.mp h with h | h
  · obtain ⟨m, w, hword, rfl⟩ := exists_word_of_mem_linesTokens h
    show IsWord (String.ofList w.2).toList
    rwa [String.toList_ofList]
  · rw [List.mem_singleton.mp h] at hkind
    exact absurd rfl hkind

/-- A word stands in the line of its place, at the column of its place. -/
theorem word_in_line {s : String} {t : Token} (h : t ∈ lex s) (hkind : t.kind ≠ .eof) :
    ∃ line, (Text.lines s.toList)[t.pos.line - 1]? = some line ∧ 1 ≤ t.pos.col ∧
      t.text.toList <+: line.drop (t.pos.col - 1) := by
  have hword := isWord_of_mem_lex h hkind
  obtain ⟨before, after, hsplit, hpos, -⟩ := standsIn_of_mem_lex h
  rw [hsplit]
  exact Text.exists_line_of_word hword.1 hword.2 1 before after hpos

/-- If the end of file has a line, it stands behind it. -/
theorem end_behind_line {s : String} {t : Token} (h : t ∈ lex s) (hkind : t.kind = .eof)
    {line : List Char} (hline : (Text.lines s.toList)[t.pos.line - 1]? = some line) :
    line.length < t.pos.col := by
  obtain ⟨before, after, hsplit, hpos, hend⟩ := standsIn_of_mem_lex h
  obtain ⟨htext, rfl⟩ := hend hkind
  have hall : s.toList = before := by
    rw [hsplit, htext]
    exact List.append_nil before
  rw [← hall] at hpos
  exact Text.length_lt_col 1 s.toList hpos hline

end Token

end PiScript
