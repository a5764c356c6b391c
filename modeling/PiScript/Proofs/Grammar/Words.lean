import PiScript.Proofs.Grammar.ErrorPlace

/-!
# Programs and their words

The words of a text outside comments decide which program it writes, and what is wrong with it if it
writes none. How the words are spread over lines, what stands between them, and what the comments
say only moves the place at which an error is reported. That also holds of malformed words: each
hides the rest of its own line, but nothing in front of the first of them is hidden.
-/

namespace PiScript

namespace Token

/-! ## Words outside comments -/

/-- The longest runs of characters of a line that are not blank. -/
def runsOf (line : List Char) : List (List Char) :=
  (line.splitOnP Text.isBlank).filter fun run => !run.isEmpty

/-- The words of a line in front of its comment. -/
def lineWords (line : List Char) : List (List Char) :=
  (runsOf line).takeWhile fun word => !startsComment word

/-- The words of a text outside comments. -/
def textWords (s : String) : List (List Char) :=
  (s.toList.splitOn '\n').flatMap lineWords

/-! ## Words and what is kept of them -/

theorem map_snd_columns (col : Nat) (pieces : List (List Char)) :
    (columns col pieces).map Prod.snd = pieces := by
  induction pieces generalizing col with
  | nil => rfl
  | cons piece rest ih => rw [columns, List.map_cons, ih]

theorem map_snd_wordsFrom_eq (col : Nat) (line : List Char) :
    (wordsFrom col line).map Prod.snd = runsOf line := by
  rw [runsOf, ← map_snd_columns col (line.splitOnP Text.isBlank), List.filter_map]
  rfl

section ThroughFirst

variable {α β : Type} (p : α → Bool)

theorem throughFirst_map (f : β → α) (bs : List β) :
    throughFirst p (bs.map f) = (throughFirst (p ∘ f) bs).map f := by
  induction bs with
  | nil => rfl
  | cons b bs ih =>
    rw [List.map_cons, throughFirst, throughFirst, Function.comp_apply]
    by_cases hb : p (f b) = true
    · rw [if_pos hb, if_pos hb]
      rfl
    · rw [if_neg hb, if_neg hb, ih]
      rfl

theorem find?_throughFirst (as : List α) : (throughFirst p as).find? p = as.find? p := by
  induction as with
  | nil => rfl
  | cons a as ih =>
    rw [throughFirst]
    by_cases ha : p a = true
    · rw [if_pos ha, List.find?_cons_of_pos ha, List.find?_cons_of_pos ha]
    · rw [if_neg ha, List.find?_cons_of_neg ha, List.find?_cons_of_neg ha, ih]

theorem throughFirst_of_forall {as : List α} (h : ∀ a ∈ as, ¬p a = true) :
    throughFirst p as = as := by
  induction as with
  | nil => rfl
  | cons a as ih =>
    obtain ⟨ha, has⟩ := List.forall_mem_cons.mp h
    rw [throughFirst, if_neg ha, ih has]

end ThroughFirst

def isMalformed (word : List Char) : Bool :=
  specifiedKind word = .malformed

/-- What is kept of a line: its words up to the first malformed one. -/
theorem lineSpelling_eq (line : List Char) :
    lineSpelling line = (throughFirst isMalformed (lineWords line)).map spell := by
  rw [lineWords, ← map_snd_wordsFrom_eq 1 line, List.takeWhile_map, throughFirst_map, List.map_map]
  rfl

def spellsMalformed (x : TokenKind × String) : Bool :=
  x.1 = .malformed

theorem find?_lineSpelling (line : List Char) :
    (lineSpelling line).find? spellsMalformed =
      ((lineWords line).map spell).find? spellsMalformed := by
  rw [lineSpelling_eq, List.find?_map, List.find?_map]
  show ((throughFirst isMalformed _).find? isMalformed).map spell = _
  rw [find?_throughFirst]
  rfl

/-- The first malformed word of a text is never hidden by another one. -/
theorem find?_textSpelling (s : String) :
    (textSpelling s.toList).find? spellsMalformed =
      ((textWords s).map spell).find? spellsMalformed := by
  rw [textSpelling, textWords, List.map_flatMap, List.find?_flatMap, List.find?_flatMap]
  congr 1
  funext line
  exact find?_lineSpelling line

/-- Without malformed words nothing is hidden. -/
theorem textSpelling_eq_map_spell {s : String}
    (h : ((textWords s).map spell).find? spellsMalformed = none) :
    textSpelling s.toList = (textWords s).map spell := by
  rw [textSpelling, textWords, List.map_flatMap, List.flatMap_def, List.flatMap_def]
  congr 1
  apply List.map_congr_left
  intro line hline
  rw [lineSpelling_eq, throughFirst_of_forall]
  intro word hword
  have hmem : spell word ∈ (textWords s).map spell :=
    List.mem_map_of_mem (List.mem_flatMap.mpr ⟨line, hline, hword⟩)
  exact List.find?_eq_none.mp h _ hmem

/-! ## The tokens of a text -/

theorem map_spelling_lex (s : String) :
    (lex s).map spelling = textSpelling s.toList ++ [(endToken s.toList).spelling] := by
  rw [lex_eq, textTokens, List.map_append, map_spelling_linesTokens]
  rfl

/-- The first malformed token of a text is that of its first malformed word. -/
theorem find?_lex (s : String) :
    ((lex s).find? (·.kind = .malformed)).map spelling =
      ((textWords s).map spell).find? spellsMalformed := by
  have hfind : ((lex s).find? (·.kind = .malformed)).map spelling =
      ((lex s).map spelling).find? spellsMalformed := by
    rw [List.find?_map]
    rfl
  have hend : [(endToken s.toList).spelling].find? spellsMalformed = none := rfl
  rw [hfind, map_spelling_lex, List.find?_append, hend, Option.or_none, find?_textSpelling]

end Token

namespace Grammar

open Parse Token

/-! ## What the parser makes of them -/

theorem Matches.mapError_cause {R : Token → Token → Prop} {p q : Except Failure Program}
    (h : Matches R Eq p q) : p.mapError Failure.cause = q.mapError Failure.cause := by
  cases h with
  | ok h => rw [h]
  | error cause h => rfl

theorem mapError_cause_ofTokens {ts : List Token} (hmal : ∀ t ∈ ts, t.kind ≠ .malformed) :
    (Program.ofTokens ts).mapError Error.cause = (assemble [] [] ts).mapError Failure.cause := by
  rw [ofTokens_eq hmal]
  cases assemble [] [] ts <;> rfl

/-- Texts with the same words write the same program, or fail for the same cause. -/
theorem cause_eq_of_textWords {s s' : String} (h : textWords s = textWords s') :
    (Program.ofText s).mapError Error.cause = (Program.ofText s').mapError Error.cause := by
  have hfirst := find?_lex s
  have hfirst' := find?_lex s'
  rw [← h] at hfirst'
  rw [Program.ofText, Program.ofText]
  cases hword : ((textWords s).map spell).find? spellsMalformed with
  -- Both are rejected for their first malformed word, which is the same one.
  | some x =>
    rw [hword] at hfirst hfirst'
    obtain ⟨t, ht, htx⟩ := Option.map_eq_some_iff.mp hfirst
    obtain ⟨t', ht', htx'⟩ := Option.map_eq_some_iff.mp hfirst'
    have htext : t.text = t'.text := congrArg Prod.snd (htx.trans htx'.symm)
    rw [ofTokens_of_find? ht, ofTokens_of_find? ht', htext]
    rfl
  -- Nothing is hidden in either, so their tokens are spelled alike.
  | none =>
    rw [hword] at hfirst hfirst'
    have hlines : (linesTokens 1 (s.toList.splitOn '\n')).map spelling =
        (linesTokens 1 (s'.toList.splitOn '\n')).map spelling := by
      rw [map_spelling_linesTokens, map_spelling_linesTokens]
      show textSpelling s.toList = textSpelling s'.toList
      rw [textSpelling_eq_map_spell hword, h, ← textSpelling_eq_map_spell (h ▸ hword)]
    have hagree : Agree SameSpelling (lex s) (lex s') := by
      rw [lex_eq, lex_eq]
      exact agree_of_spelling hlines rfl rfl
    rw [mapError_cause_ofTokens (not_malformed_of_find? (Option.map_eq_none_iff.mp hfirst)),
      mapError_cause_ofTokens (not_malformed_of_find? (Option.map_eq_none_iff.mp hfirst'))]
    exact Matches.mapError_cause (assemble_matches (fun _ _ => id) hagree [] [])

/-- Texts with the same words outside comments, however these are laid out, write the same program
or fail with the same kind of error and the same message. -/
theorem layout_does_not_matter {s s' : String} (h : textWords s = textWords s') :
    (∃ p, Program.ofText s = .ok p ∧ Program.ofText s' = .ok p) ∨
    ∃ e e', Program.ofText s = .error e ∧ Program.ofText s' = .error e' ∧
      e.report.kind = e'.report.kind ∧ e.report.message = e'.report.message := by
  have hcause := cause_eq_of_textWords h
  -- The same cause, or the same program: one text cannot fail where the other does not.
  cases hs : Program.ofText s with
  | ok p =>
    cases hs' : Program.ofText s' with
    | ok p' =>
      rw [hs, hs'] at hcause
      cases hcause
      exact .inl ⟨p, rfl, rfl⟩
    | error e' =>
      rw [hs, hs'] at hcause
      cases hcause
  | error e =>
    cases hs' : Program.ofText s' with
    | ok p' =>
      rw [hs, hs'] at hcause
      cases hcause
    | error e' =>
      rw [hs, hs'] at hcause
      have hsame : e.cause = e'.cause := Except.error.inj hcause
      exact .inr ⟨e, e', rfl, rfl, congrArg Cause.kind hsame, congrArg Cause.message hsame⟩

/-- The words of `bareBranch` on other lines, with comments between them. -/
def spreadBranch : String := "+a+ // a line\n3.\t3.14 //\n\n  3."

/-- The words of `twoMalformed`, of which the first malformed one hides the second. -/
def hidingMalformed : String := "3.\n3.2 3.3"

theorem spreadBranch_words : textWords bareBranch = textWords spreadBranch := by
  decide +kernel

theorem hidingMalformed_words : textWords twoMalformed = textWords hidingMalformed := by
  decide +kernel

theorem ofText_twoMalformed :
    Program.ofText twoMalformed = .error ⟨.unexpectedWord "3.2", some ⟨1, 4⟩⟩ := by
  have hfind : (Token.lex twoMalformed).find? (·.kind = .malformed) =
      some ⟨.malformed, "3.2", ⟨1, 4⟩⟩ := by
    rw [lex_twoMalformed]
    rfl
  exact ofTokens_of_find? hfind

theorem spreadBranch_and_hidingMalformed_fail_alike :
    (∃ e, Program.ofText spreadBranch = .error e ∧ e.report.kind = .grammar ∧
      e.report.message = "Expecting condition in if statement") ∧
    ∃ e, Program.ofText hidingMalformed = .error e ∧ e.report.kind = .lexical ∧
      e.report.message = "Unexpected token 3.2" := by
  constructor
  · rcases layout_does_not_matter spreadBranch_words with ⟨p, hp, -⟩ | ⟨e, e', he, he', hkind, hmsg⟩
    · rw [ofText_bareBranch] at hp
      cases hp
    · rw [ofText_bareBranch] at he
      cases he
      exact ⟨e', he', hkind.symm, hmsg.symm⟩
  · rcases layout_does_not_matter hidingMalformed_words with
      ⟨p, hp, -⟩ | ⟨e, e', he, he', hkind, hmsg⟩
    · rw [ofText_twoMalformed] at hp
      cases hp
    · rw [ofText_twoMalformed] at he
      cases he
      exact ⟨e', he', hkind.symm, hmsg.symm⟩

end Grammar

end PiScript
