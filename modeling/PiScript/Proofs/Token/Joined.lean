import PiScript.Proofs.Token.Layout

/-!
# Texts one below the other

A text behind another and a line feed has its own tokens, as many lines further down as there are in
front of it. It does not matter how the first text ends: a word, a comment and the rest of a line
that a malformed word hides all end at the line feed. A session relies on this when its buffer grows
line by line.
-/

namespace PiScript

namespace Position

/-- The place `k` lines further down, in the same column. -/
def down (k : Nat) (p : Position) : Position :=
  ⟨p.line + k, p.col⟩

theorem next_down (k : Nat) (p : Position) (c : Char) : (p.down k).next c = (p.next c).down k := by
  unfold next
  split
  · show mk (p.line + k + 1) 1 = mk (p.line + 1 + k) 1
    rw [Nat.add_right_comm]
  · rfl

theorem after_down (k : Nat) (p : Position) (cs : List Char) :
    (p.down k).after cs = (p.after cs).down k := by
  induction cs generalizing p with
  | nil => rfl
  | cons c cs ih => rw [after_cons, after_cons, next_down, ih]

end Position

namespace Token

def down (k : Nat) (t : Token) : Token :=
  { t with pos := t.pos.down k }

/-- The scanner looks at places only to hand them on. -/
theorem scan_down (k : Nat) (p : Position) (cs : List Char) :
    scan (p.down k) cs = (scan p cs).map (down k) := by
  fun_induction scan p cs with
  | case1 p cs start hdrop =>
    rw [scan_eq_scanWord, hdrop, Position.after_down]
    rfl
  | case2 p cs start c tail hdrop word rest behind hcomment ih =>
    rw [scan_eq_scanWord, hdrop, scanWord, if_pos hcomment, ← ih]
    simp only [Position.after_down]
    rfl
  | case3 p cs start c tail hdrop word rest behind hcomment kind token hmal ih =>
    rw [scan_eq_scanWord, hdrop, scanWord, if_neg hcomment, if_pos hmal, List.map_cons, ← ih]
    simp only [Position.after_down]
    rfl
  | case4 p cs start c tail hdrop word rest behind hcomment kind token hmal ih =>
    rw [scan_eq_scanWord, hdrop, scanWord, if_neg hcomment, if_neg hmal, List.map_cons, ← ih]
    simp only [Position.after_down]
    rfl

/-- The words of a line are no end of file. -/
theorem kind_ne_eof_of_mem_lineTokensFrom {n col : Nat} {line : List Char} :
    ∀ t ∈ lineTokensFrom n col line, t.kind ≠ .eof := by
  intro t ht
  obtain ⟨w, -, rfl⟩ := List.mem_map.mp ht
  exact specifiedKind_ne_eof w.2

/-- In whatever state the scan of `cs` ends, behind a line feed it starts anew. -/
theorem scan_append_feed (p : Position) (cs ds : List Char) :
    ∃ words, scan p cs = words ++ [⟨.eof, "", p.after cs⟩] ∧ (∀ t ∈ words, t.kind ≠ .eof) ∧
      scan p (cs ++ '\n' :: ds) = words ++ scan ((p.after cs).next '\n') ds := by
  induction cs using Text.line_induction generalizing p with
  | last line hline =>
    -- The last line has the same tokens in front of a line feed as at the end of the text.
    have hends : EndsLine [] := by simp [EndsLine]
    have hfeed : EndsLine ('\n' :: ds) := by simp [EndsLine]
    have hscan := scan_line hline hends p.line p.col
    rw [List.append_nil, scan_nil] at hscan
    refine ⟨lineTokensFrom p.line p.col line, ?_, kind_ne_eof_of_mem_lineTokensFrom, ?_⟩
    · rw [Position.after_of_no_feed hline, ← hscan]
    · rw [Position.after_of_no_feed hline, ← scan_blank isBlank_feed, ← scan_line hline hfeed]
  | feed line rest hline ih =>
    have hfeed (cs : List Char) : EndsLine ('\n' :: cs) := by simp [EndsLine]
    have hafter : p.after (line ++ '\n' :: rest) = (Position.mk (p.line + 1) 1).after rest := by
      rw [Position.after_append, Position.after_of_no_feed hline]
      rfl
    have hscan (cs : List Char) : scan p (line ++ '\n' :: cs) =
        lineTokensFrom p.line p.col line ++ scan ⟨p.line + 1, 1⟩ cs := by
      have hline := scan_line hline (hfeed cs) p.line p.col
      rwa [scan_blank isBlank_feed] at hline
    obtain ⟨words, hwords, hkinds, hjoined⟩ := ih ⟨p.line + 1, 1⟩
    refine ⟨lineTokensFrom p.line p.col line ++ words, ?_, ?_, ?_⟩
    · rw [hscan, hwords, hafter, List.append_assoc]
    · exact List.forall_mem_append.mpr ⟨kind_ne_eof_of_mem_lineTokensFrom, hkinds⟩
    · rw [List.append_assoc, List.cons_append, hscan, hjoined, hafter, List.append_assoc]

/-- A text below another has its own tokens, moved down by the lines in front of it, behind all
tokens of the other text but the end of file. -/
theorem tokens_of_text_below (s t : String) :
    ∃ words stop, stop.kind = .eof ∧ (∀ u ∈ words, u.kind ≠ .eof) ∧
      (ofText s = words ++ [stop] ∧ ofText (s ++ "\n" ++ t) =
        words ++ (ofText t).map (down (1 + s.toList.count '\n'))) ∧
      lex s = words ++ [stop] ∧ lex (s ++ "\n" ++ t) =
        words ++ (lex t).map (down (1 + s.toList.count '\n')) := by
  obtain ⟨words, hwords, hkinds, hjoined⟩ := scan_append_feed .start s.toList t.toList
  have hlex (u : String) : lex u = ofText u := by rw [lex_eq, ofText_eq]
  have htext : (s ++ "\n" ++ t).toList = s.toList ++ '\n' :: t.toList := by
    rw [String.toList_append, String.toList_append, List.append_assoc]
    rfl
  -- Behind the line feed stands the first column, below all lines of `s`.
  have hstart : (Position.start.after s.toList).next '\n' =
      Position.start.down (1 + s.toList.count '\n') := by
    rw [after_start]
    show Position.mk (1 + s.toList.count '\n' + 1) 1 = Position.mk (1 + (1 + s.toList.count '\n')) 1
    rw [Nat.add_comm 1 (1 + s.toList.count '\n')]
  have htokens : ofText (s ++ "\n" ++ t) =
      words ++ (ofText t).map (down (1 + s.toList.count '\n')) := by
    rw [ofText, htext, hjoined, hstart, scan_down]
    rfl
  rw [hlex, hlex, hlex]
  exact ⟨words, _, rfl, hkinds, ⟨hwords, htokens⟩, hwords, htokens⟩

/-- The comment behind the malformed word ends with its line. -/
example : ofText ("3.2 // a" ++ "\n" ++ "3.") =
    [⟨.malformed, "3.2", ⟨1, 1⟩⟩] ++ (ofText "3.").map (down 1) := by
  decide +kernel

end Token

end PiScript
