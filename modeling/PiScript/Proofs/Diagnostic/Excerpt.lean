import PiScript.Diagnostic
import PiScript.Proofs.Grammar.ErrorPlace
import PiScript.Proofs.Token.Place

/-!
# What a diagnostic points at

A diagnostic that shows a line puts a caret under the column of the error's place, however wide the
line number in front of it is. For a text that is no program this is the place of the token that
keeps it from being one, so the caret stands under the first character of that token, or behind the
line if that token is the end of file (`diagnostic_points_at_offender`).
-/

namespace PiScript

namespace Diagnostic

open Text Grammar

/-! ## The caret -/

/-- The diagnostic shows a line, and below it a caret under the column `col`: what stands in front of
the caret is as wide as the gutter and the characters before that column. -/
def ShowsCaret (diagnostic : String) (line : List Char) (col : Nat) : Prop :=
  ∃ above gutter below, '\n' ∉ gutter.toList ∧ '\n' ∉ line ∧
    diagnostic = above ++ "\n" ++ paint .brightBlack gutter ++ String.ofList line ++ "\n" ++
      paint .red (String.ofList (List.replicate (gutter.length + (col - 1)) ' ') ++ "^") ++ below

theorem feed_not_mem_gutter (p : Position) : '\n' ∉ (gutter p).toList := by
  intro h
  simp only [gutter, String.toList_append, String.toList_ofList, List.mem_append] at h
  rcases h with (h | h) | h
  · exact absurd (List.eq_of_mem_replicate h) (by decide)
  · have hdigit : '\n'.isDigit = true := by
      apply Nat.isDigit_of_mem_toDigits (b := 10) (n := p.line) (by decide) (by decide)
      simpa using h
    exact absurd hdigit (by decide)
  · exact absurd h (by decide)

section

variable {d : String} {line : List Char} {col : Nat}

theorem ShowsCaret.append_left (h : ShowsCaret d line col) (front : String) :
    ShowsCaret (front ++ d) line col := by
  obtain ⟨above, gutter, below, hgutter, hline, rfl⟩ := h
  refine ⟨front ++ above, gutter, below, hgutter, hline, ?_⟩
  simp only [String.append_assoc]

theorem ShowsCaret.append_right (h : ShowsCaret d line col) (back : String) :
    ShowsCaret (d ++ back) line col := by
  obtain ⟨above, gutter, below, hgutter, hline, rfl⟩ := h
  refine ⟨above, gutter, below ++ back, hgutter, hline, ?_⟩
  simp only [String.append_assoc]

end

theorem showsCaret_excerpt (p : Position) {line : List Char} (hline : '\n' ∉ line) :
    ShowsCaret (excerpt p line) line p.col := by
  refine ⟨"     |", gutter p, paint .red " error here" ++ "\n" ++ frame, feed_not_mem_gutter p, hline,
    ?_⟩
  have hframe : frame = "     |" ++ "\n" := by decide
  rw [excerpt, caret, caretIndent]
  nth_rewrite 1 [hframe]
  simp only [String.append_assoc]

/-- A line that is shown has its caret under the column of the error's place. -/
theorem showsCaret_render {source : String} {e : Error} {p : Position} {line : List Char}
    (hpos : e.pos = some p) (h : shownLine? source p = some line) :
    ShowsCaret (render source e) line p.col := by
  have hline : '\n' ∉ line := feed_not_mem_of_mem_lines (List.mem_of_getElem? h)
  have hlocation : ShowsCaret (location source p) line p.col := by
    unfold location
    rw [h]
    exact (showsCaret_excerpt p hline).append_left _
  rw [render, hpos]
  exact (hlocation.append_left _).append_right _

/-! ## Texts that are no programs -/

/-- A caret in the line at the token's place is right: it points at the first character of the
token's word, or the token is the end of file and its place lies behind the line. -/
def PointsAt (line : List Char) (t : Token) : Prop :=
  t.kind ≠ .eof ∧ t.text ≠ "" ∧ 1 ≤ t.pos.col ∧ t.text.toList <+: line.drop (t.pos.col - 1) ∨
    t.kind = .eof ∧ line.length < t.pos.col

theorem pointsAt_of_mem_lex {s : String} {t : Token} {line : List Char} (ht : t ∈ Token.lex s)
    (hline : shownLine? s t.pos = some line) : PointsAt line t := by
  by_cases heof : t.kind = .eof
  · exact .inr ⟨heof, Token.end_behind_line ht heof hline⟩
  · left
    obtain ⟨line', hline', hcol, hword⟩ := Token.word_in_line ht heof
    obtain rfl : line' = line := Option.some.inj (hline'.symm.trans hline)
    refine ⟨heof, ?_, hcol, hword⟩
    intro hempty
    exact (Token.isWord_of_mem_lex ht heof).1 (by rw [hempty]; rfl)

theorem eof_of_no_line {s : String} {t : Token} (ht : t ∈ Token.lex s)
    (hnone : shownLine? s t.pos = none) : t.kind = .eof := by
  by_contra heof
  obtain ⟨line, hline, -⟩ := Token.word_in_line ht heof
  rw [shownLine?, hline] at hnone
  cases hnone

/-- For a text that is no program, the line of the error's place holds the offending token at the
column of that place, and the caret stands under it. If that token is the end of file, the place lies
behind the line, or behind all lines; in no other case is there no line to show. -/
theorem diagnostic_points_at_offender {s : String} {e : Error} (h : Program.ofText s = .error e) :
    ∃ t, offender? s = some t ∧
      e.report.kind = (if t.kind = .malformed then .lexical else .grammar) ∧
      e.report.line = some t.pos.line ∧ e.report.col = some t.pos.col ∧
      (∀ line, shownLine? s t.pos = some line →
        PointsAt line t ∧ ShowsCaret (render s e) line t.pos.col) ∧
      (shownLine? s t.pos = none → t.kind = .eof) := by
  obtain ⟨t, ht, hoffender, hpos, hkind⟩ := exists_offender h
  refine ⟨t, hoffender, hkind, ?_, ?_, ?_, eof_of_no_line ht⟩
  · rw [Error.report, hpos]
    rfl
  · rw [Error.report, hpos]
    rfl
  · intro line hline
    exact ⟨pointsAt_of_mem_lex ht hline, showsCaret_render hpos hline⟩

/-- A malformed word behind a tab, between lines that end in carriage returns. -/
def returnsText : String := "+a+ 3.\r\n\t3.2 3.\r\n"

theorem lex_returnsText : Token.lex returnsText =
    [⟨.operand, "+a+", ⟨1, 1⟩⟩, ⟨.lineEnd, "3.", ⟨1, 5⟩⟩, ⟨.malformed, "3.2", ⟨2, 2⟩⟩,
      ⟨.eof, "", ⟨3, 1⟩⟩] := by
  rw [Token.lex_eq]
  decide +kernel

theorem returnsText_points_at_word :
    ∃ e, Program.ofText returnsText = .error e ∧
      ShowsCaret (render returnsText e) "\t3.2 3.".toList 2 := by
  have hfind : (Token.lex returnsText).find? (·.kind = .malformed) =
      some ⟨.malformed, "3.2", ⟨2, 2⟩⟩ := by
    rw [lex_returnsText]
    rfl
  have herror : Program.ofText returnsText = .error ⟨.unexpectedWord "3.2", some ⟨2, 2⟩⟩ :=
    ofTokens_of_find? hfind
  refine ⟨_, herror, ?_⟩
  obtain ⟨t, hoffender, -, -, -, hshown, -⟩ := diagnostic_points_at_offender herror
  rw [offender?, hfind] at hoffender
  obtain rfl := Option.some.inj hoffender
  exact (hshown _ (by decide +kernel)).2

end Diagnostic

end PiScript
