import PiScript.Proofs.Token.Layout

/-!
# The spelling of texts

Tokens without their places. The spelling of lines one below the other is the spelling of each in
turn, and a line of words separated by spaces is spelled as those words, provided that the scanner
keeps each of them: none is malformed and none starts a comment.
-/

namespace PiScript

namespace Token

/-- A token without its place. -/
def spelling (t : Token) : TokenKind × String :=
  (t.kind, t.text)

def spell (word : List Char) : TokenKind × String :=
  (specifiedKind word, String.ofList word)

def lineSpelling (line : List Char) : List (TokenKind × String) :=
  (keptWords (wordsFrom 1 line)).map fun w => spell w.2

def textSpelling (cs : List Char) : List (TokenKind × String) :=
  (cs.splitOn '\n').flatMap lineSpelling

theorem map_spelling_linesTokens (n : Nat) (lines : List (List Char)) :
    (linesTokens n lines).map spelling = lines.flatMap lineSpelling := by
  induction lines generalizing n with
  | nil => rfl
  | cons line lines ih =>
    rw [linesTokens, List.map_append, ih, List.flatMap_cons, lineTokensFrom, List.map_map]
    rfl

theorem isWord_of_mem_textSpelling {cs : List Char} {x : TokenKind × String}
    (h : x ∈ textSpelling cs) : ∃ word, IsWord word ∧ x = spell word := by
  rw [textSpelling, ← map_spelling_linesTokens 1] at h
  obtain ⟨t, ht, rfl⟩ := List.mem_map.mp h
  obtain ⟨m, w, hword, rfl⟩ := exists_word_of_mem_linesTokens ht
  exact ⟨w.2, hword, rfl⟩

theorem textSpelling_nil : textSpelling [] = [] := by
  simp [textSpelling, lineSpelling, wordsFrom_nil, keptWords_nil]

theorem textSpelling_append_feed (cs ds : List Char) :
    textSpelling (cs ++ '\n' :: ds) = textSpelling cs ++ textSpelling ds := by
  rw [textSpelling, List.splitOn_append_cons_self, List.flatMap_append]
  rfl

/-- The spelling of texts joined by line feeds. -/
theorem textSpelling_intercalate (texts : List (List Char)) :
    textSpelling (['\n'].intercalate texts) = texts.flatMap textSpelling := by
  induction texts with
  | nil => exact textSpelling_nil
  | cons cs rest ih =>
    cases rest with
    | nil => simp
    | cons ds rest =>
      rw [List.intercalate_cons_cons, List.append_assoc, List.singleton_append,
        textSpelling_append_feed, ih, ← List.flatMap_cons]

/-! ## Words written one behind the other -/

def wordToken (w : String) : Token :=
  ⟨specifiedKind w.toList, w, .start⟩

/-- The scanner keeps the word and goes on behind it. -/
def Legible (w : String) : Prop :=
  (w.toList ≠ [] ∧ ∀ c ∈ w.toList, Text.isBlank c = false) ∧
    startsComment w.toList = false ∧ specifiedKind w.toList ≠ .malformed

instance : DecidablePred Legible := fun w =>
  haveI : Decidable (∀ c ∈ w.toList, Text.isBlank c = false) := List.decidableBAll _ _
  inferInstanceAs (Decidable ((w.toList ≠ [] ∧ ∀ c ∈ w.toList, Text.isBlank c = false) ∧
    startsComment w.toList = false ∧ specifiedKind w.toList ≠ .malformed))

theorem spell_toList (w : String) : spell w.toList = (wordToken w).spelling := by
  rw [spell, String.ofList_toList]
  rfl

theorem isBlank_space : Text.isBlank ' ' = true := by
  decide

theorem map_snd_wordsFrom {ws : List String} (h : ∀ w ∈ ws, Legible w) (col : Nat) :
    (wordsFrom col ([' '].intercalate (ws.map String.toList))).map Prod.snd =
      ws.map String.toList := by
  induction ws generalizing col with
  | nil =>
    show (wordsFrom col []).map Prod.snd = []
    rw [wordsFrom_nil]
    rfl
  | cons w ws ih =>
    have hw : Legible w := h w List.mem_cons_self
    have hws : ∀ u ∈ ws, Legible u := fun u hu => h u (List.mem_cons_of_mem w hu)
    cases ws with
    | nil =>
      have hfirst : wordsFrom col (w.toList ++ []) = _ :=
        wordsFrom_word hw.1.1 hw.1.2 (by simp) col
      rw [List.append_nil, wordsFrom_nil] at hfirst
      simp [hfirst]
    | cons u ws =>
      -- The space behind the first word ends it and is skipped.
      rw [List.map_cons, List.map_cons, List.intercalate_cons_cons, List.append_assoc,
        List.singleton_append, wordsFrom_word hw.1.1 hw.1.2 (by simp [isBlank_space]),
        wordsFrom_blank isBlank_space, List.map_cons]
      have hrest := ih hws (col + w.toList.length + 1)
      rw [List.map_cons] at hrest
      rw [hrest]

theorem keptWords_of_legible {ws : List (Nat × List Char)}
    (h : ∀ w ∈ ws.map Prod.snd, Legible (String.ofList w)) : keptWords ws = ws := by
  induction ws with
  | nil => rfl
  | cons w ws ih =>
    have hw := h w.2 (by simp)
    rw [Legible, String.toList_ofList] at hw
    rw [keptWords_cons hw.2.1 hw.2.2, ih]
    intro u hu
    exact h u (List.mem_cons_of_mem _ hu)

/-- A line of words is spelled word by word. -/
theorem lineSpelling_words {ws : List String} (h : ∀ w ∈ ws, Legible w) :
    lineSpelling (" ".intercalate ws).toList = ws.map fun w => (wordToken w).spelling := by
  have hsnd := map_snd_wordsFrom h 1
  have hkept : ∀ w ∈ (wordsFrom 1 ([' '].intercalate (ws.map String.toList))).map Prod.snd,
      Legible (String.ofList w) := by
    rw [hsnd]
    intro w hw
    obtain ⟨u, hu, rfl⟩ := List.mem_map.mp hw
    rw [String.ofList_toList]
    exact h u hu
  rw [lineSpelling, String.toList_intercalate]
  show (keptWords (wordsFrom 1 ([' '].intercalate (ws.map String.toList)))).map _ = _
  rw [keptWords_of_legible hkept]
  calc
    _ = ((wordsFrom 1 ([' '].intercalate (ws.map String.toList))).map Prod.snd).map spell := by
      rw [List.map_map]
      rfl
    _ = ws.map fun w => spell w.toList := by
      rw [hsnd, List.map_map]
      rfl
    _ = _ := List.map_congr_left fun w _ => spell_toList w

theorem Legible.feed_not_mem {w : String} (h : Legible w) : '\n' ∉ w.toList :=
  Text.feed_not_mem_of_not_blank h.1.2

/-- A text that is one word has one token before its end. -/
theorem lex_of_legible {w : String} (h : Legible w) :
    lex w = [wordToken w, endToken w.toList] := by
  have hwords : wordsFrom 1 w.toList = [(1, w.toList)] := by
    have hword : wordsFrom 1 (w.toList ++ []) = _ := wordsFrom_word h.1.1 h.1.2 (by simp) 1
    rw [List.append_nil, wordsFrom_nil] at hword
    exact hword
  rw [lex_eq, textTokens, List.splitOn_eq_singleton h.feed_not_mem, linesTokens, lineTokensFrom,
    hwords, keptWords_cons h.2.1 h.2.2, keptWords_nil, List.map_singleton, ofWord,
    String.ofList_toList]
  rfl

theorem not_mem_feed_words {ws : List String} (h : ∀ w ∈ ws, Legible w) :
    '\n' ∉ [' '].intercalate (ws.map String.toList) := by
  -- The characters between words are spaces.
  induction ws with
  | nil => simp
  | cons w ws ih =>
    have hw := (h w List.mem_cons_self).feed_not_mem
    have hws := ih fun u hu => h u (List.mem_cons_of_mem w hu)
    cases ws with
    | nil => simpa using hw
    | cons u ws =>
      rw [List.map_cons, List.map_cons, List.intercalate_cons_cons, ← List.map_cons]
      simp only [List.mem_append, not_or]
      exact ⟨⟨hw, by decide⟩, hws⟩

/-- Lines of words are spelled word by word. -/
theorem textSpelling_lines {lines : List (List String)} (h : ∀ ws ∈ lines, ∀ w ∈ ws, Legible w) :
    textSpelling ("\n".intercalate (lines.map (" ".intercalate ·))).toList =
      (lines.flatten.map wordToken).map spelling := by
  have hline : ∀ ws ∈ lines, textSpelling (" ".intercalate ws).toList =
      ws.map fun w => (wordToken w).spelling := by
    intro ws hws
    have hfeed : '\n' ∉ (" ".intercalate ws).toList := by
      rw [String.toList_intercalate]
      exact not_mem_feed_words (h ws hws)
    rw [textSpelling, List.splitOn_eq_singleton hfeed, List.flatMap_singleton,
      lineSpelling_words (h ws hws)]
  rw [String.toList_intercalate]
  show textSpelling (['\n'].intercalate _) = _
  rw [textSpelling_intercalate, List.flatMap_map, List.flatMap_map, List.flatMap_def,
    List.map_congr_left hline, List.map_map, List.map_flatten]
  rfl

end Token

end PiScript
