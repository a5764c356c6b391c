import Mathlib.Data.List.Induction
import Mathlib.Data.List.TakeWhile
import PiScript.Proofs.Text.Lines
import PiScript.Proofs.Token.Table
import PiScript.Token.Scan

/-!
# Tokens line by line

What the tokens of a text are, said without walking over it: cut the text at its line feeds, cut
every line at its blanks, drop the empty pieces, and end the line before its first comment and
behind its first malformed word. Each word is a token at its line and column; an end of file
follows. `scan_eq` says that `scan` gives these tokens.
-/

namespace PiScript

namespace Token

/-! ## Words of a line -/

/-- The pieces of a line with their columns, the first piece at `col`. One blank stands between two
pieces. -/
def columns : Nat → List (List Char) → List (Nat × List Char)
  | _, [] => []
  | col, piece :: rest => (col, piece) :: columns (col + piece.length + 1) rest

/-- The longest runs of characters that are not blank, with their columns, in a line that starts at
column `col`. -/
def wordsFrom (col : Nat) (line : List Char) : List (Nat × List Char) :=
  (columns col (line.splitOnP Text.isBlank)).filter fun w => !w.2.isEmpty

/-- The leading elements up to the first with a property, that one included. -/
def throughFirst {α : Type} (p : α → Bool) : List α → List α
  | [] => []
  | a :: as => if p a then [a] else a :: throughFirst p as

/-- The words of a line that are kept: those before the first comment, up to the first malformed
one. -/
def keptWords (ws : List (Nat × List Char)) : List (Nat × List Char) :=
  throughFirst (fun w => specifiedKind w.2 = .malformed) (ws.takeWhile fun w => !startsComment w.2)

def ofWord (line : Nat) (w : Nat × List Char) : Token :=
  ⟨specifiedKind w.2, String.ofList w.2, ⟨line, w.1⟩⟩

def lineTokensFrom (n col : Nat) (line : List Char) : List Token :=
  (keptWords (wordsFrom col line)).map (ofWord n)

def linesTokens : Nat → List (List Char) → List Token
  | _, [] => []
  | n, line :: rest => lineTokensFrom n 1 line ++ linesTokens (n + 1) rest

def lastLineLength (cs : List Char) : Nat :=
  (cs.reverse.takeWhile (· ≠ '\n')).length

/-- The end of file: one line further for every line feed, right behind the last line. -/
def endToken (cs : List Char) : Token :=
  ⟨.eof, "", ⟨1 + cs.count '\n', 1 + lastLineLength cs⟩⟩

def textTokens (cs : List Char) : List Token :=
  linesTokens 1 (cs.splitOn '\n') ++ [endToken cs]

/-! ## Words of a line, from the left -/

theorem isBlank_feed : Text.isBlank '\n' = true := by
  decide

theorem wordsFrom_nil (col : Nat) : wordsFrom col [] = [] := by
  simp [wordsFrom, columns]

theorem wordsFrom_blank {c : Char} (h : Text.isBlank c = true) (col : Nat) (line : List Char) :
    wordsFrom col (c :: line) = wordsFrom (col + 1) line := by
  simp [wordsFrom, List.splitOnP_cons_eq_if_modifyHead, h, columns]

/-- A word comes first if a blank or the end of the line follows it. -/
theorem wordsFrom_word {word rest : List Char} (hne : word ≠ [])
    (hword : ∀ c ∈ word, Text.isBlank c = false)
    (hrest : ∀ c ∈ rest.head?, Text.isBlank c = true) (col : Nat) :
    wordsFrom col (word ++ rest) = (col, word) :: wordsFrom (col + word.length) rest := by
  have hkeep : (!word.isEmpty) = true := by simpa using hne
  cases rest with
  | nil =>
    rw [List.append_nil, wordsFrom_nil, wordsFrom, List.splitOnP_eq_singleton hword]
    simp [columns, hne]
  | cons c rest =>
    have hc : Text.isBlank c = true := hrest c (by simp)
    rw [wordsFrom_blank hc, wordsFrom, List.splitOnP_append_cons_of_forall_mem hword c hc, columns,
      List.filter_cons, if_pos hkeep]
    rfl

theorem keptWords_nil : keptWords [] = [] :=
  rfl

theorem keptWords_comment {w : Nat × List Char} (h : startsComment w.2 = true)
    (ws : List (Nat × List Char)) : keptWords (w :: ws) = [] := by
  simp [keptWords, h, throughFirst]

theorem keptWords_malformed {w : Nat × List Char} (hcomment : startsComment w.2 = false)
    (h : specifiedKind w.2 = .malformed) (ws : List (Nat × List Char)) :
    keptWords (w :: ws) = [w] := by
  simp [keptWords, hcomment, throughFirst, h]

theorem keptWords_cons {w : Nat × List Char} (hcomment : startsComment w.2 = false)
    (h : specifiedKind w.2 ≠ .malformed) (ws : List (Nat × List Char)) :
    keptWords (w :: ws) = w :: keptWords ws := by
  simp [keptWords, hcomment, throughFirst, h]

/-! ## Steps of `scan` -/

def scanWord (start : Position) (cs : List Char) : List Token :=
  match cs with
  | [] => [⟨.eof, "", start⟩]
  | _ :: _ =>
    let word := takeWord cs
    let rest := dropWord cs
    let behind := start.after word
    if startsComment word then scan (behind.after (takeLine rest)) (dropLine rest)
    else if kindOfWord word = .malformed then
      ⟨kindOfWord word, String.ofList word, start⟩ ::
        scan (behind.after (takeLine rest)) (dropLine rest)
    else ⟨kindOfWord word, String.ofList word, start⟩ :: scan behind rest

/-- `scan` without the proofs that it ends. -/
theorem scan_eq_scanWord (p : Position) (cs : List Char) :
    scan p cs = scanWord (p.after (cs.takeWhile Text.isBlank)) (cs.dropWhile Text.isBlank) := by
  rw [scan.eq_def]
  split
  · rename_i hdrop
    rw [hdrop]
    rfl
  · rename_i c tail hdrop
    rw [hdrop]
    rfl

theorem scan_nil (p : Position) : scan p [] = [⟨.eof, "", p⟩] := by
  rw [scan_eq_scanWord]
  rfl

theorem scan_blank {c : Char} (h : Text.isBlank c = true) (p : Position) (cs : List Char) :
    scan p (c :: cs) = scan (p.next c) cs := by
  rw [scan_eq_scanWord, scan_eq_scanWord (p.next c), List.takeWhile_cons_of_pos h,
    List.dropWhile_cons_of_pos h, Position.after_cons]

theorem scan_of_not_blank {c : Char} (h : Text.isBlank c = false) (p : Position)
    (cs : List Char) : scan p (c :: cs) = scanWord p (c :: cs) := by
  have hneg : ¬Text.isBlank c = true := by simp [h]
  rw [scan_eq_scanWord, List.takeWhile_cons_of_neg hneg, List.dropWhile_cons_of_neg hneg]
  rfl

/-! ## One line -/

def EndsLine (tail : List Char) : Prop :=
  ∀ c ∈ tail.head?, c = '\n'

theorem takeWord_append {line tail : List Char} (h : EndsLine tail) :
    takeWord (line ++ tail) = takeWord line := by
  induction line with
  | nil =>
    cases tail with
    | nil => rfl
    | cons c tail =>
      obtain rfl : c = '\n' := h c (by simp)
      rfl
  | cons c line ih =>
    simp only [takeWord, List.cons_append, List.takeWhile_cons] at ih ⊢
    rw [ih]

theorem dropWord_append {line tail : List Char} (h : EndsLine tail) :
    dropWord (line ++ tail) = dropWord line ++ tail := by
  induction line with
  | nil =>
    cases tail with
    | nil => rfl
    | cons c tail =>
      obtain rfl : c = '\n' := h c (by simp)
      rfl
  | cons c line ih =>
    simp only [dropWord, List.cons_append, List.dropWhile_cons] at ih ⊢
    split
    · exact ih
    · rfl

theorem takeWord_append_dropWord (cs : List Char) : takeWord cs ++ dropWord cs = cs :=
  List.takeWhile_append_dropWhile

theorem takeLine_append {line tail : List Char} (hline : '\n' ∉ line) (h : EndsLine tail) :
    takeLine (line ++ tail) = line := by
  have hall : ∀ c ∈ line, (c != '\n') = true := by
    intro c hc
    rw [bne_iff_ne]
    rintro rfl
    exact hline hc
  rw [takeLine, List.takeWhile_append_of_pos hall]
  cases tail with
  | nil => simp
  | cons c tail =>
    obtain rfl : c = '\n' := h c (by simp)
    simp

theorem dropLine_append {line tail : List Char} (hline : '\n' ∉ line) (h : EndsLine tail) :
    dropLine (line ++ tail) = tail := by
  have hsplit : takeLine (line ++ tail) ++ dropLine (line ++ tail) = line ++ tail :=
    List.takeWhile_append_dropWhile
  rw [takeLine_append hline h] at hsplit
  exact List.append_cancel_left hsplit

theorem not_blank_of_mem_takeWord (cs : List Char) :
    ∀ c ∈ takeWord cs, Text.isBlank c = false := by
  intro c hc
  simpa using List.mem_takeWhile_imp hc

theorem blank_of_head?_dropWord (cs : List Char) :
    ∀ c ∈ (dropWord cs).head?, Text.isBlank c = true := by
  intro c hc
  have hhead := List.head?_dropWhile_not (fun c => !Text.isBlank c) cs
  rw [dropWord] at hc
  rw [Option.mem_def.mp hc] at hhead
  simpa using hhead

def IsWord (word : List Char) : Prop :=
  word ≠ [] ∧ ∀ c ∈ word, Text.isBlank c = false

theorem isWord_takeWord {c : Char} (hc : Text.isBlank c = false) (line : List Char) :
    IsWord (takeWord (c :: line)) := by
  refine ⟨?_, not_blank_of_mem_takeWord (c :: line)⟩
  simp [takeWord, hc]

theorem wordsFrom_eq {c : Char} (hc : Text.isBlank c = false) (col : Nat) (line : List Char) :
    wordsFrom col (c :: line) =
      (col, takeWord (c :: line)) ::
        wordsFrom (col + (takeWord (c :: line)).length) (dropWord (c :: line)) := by
  obtain ⟨hne, hword⟩ := isWord_takeWord hc line
  have hwords := wordsFrom_word hne hword (blank_of_head?_dropWord (c :: line)) col
  rwa [takeWord_append_dropWord] at hwords

/-- From the left, a line is a blank or a word and the rest of the line. -/
@[elab_as_elim]
theorem word_induction {motive : List Char → Prop} (nil : motive [])
    (blank : ∀ c line, Text.isBlank c = true → motive line → motive (c :: line))
    (word : ∀ c line, Text.isBlank c = false → motive (dropWord (c :: line)) → motive (c :: line))
    (line : List Char) : motive line := by
  induction hlen : line.length using Nat.strongRecOn generalizing line with
  | ind len ih =>
    subst hlen
    cases line with
    | nil => exact nil
    | cons c line =>
      cases hc : Text.isBlank c with
      | true => exact blank c line hc (ih _ (Nat.lt_succ_self _) line rfl)
      | false => exact word c line hc (ih _ (length_dropWord_lt line hc) _ rfl)

/-- `scan` takes the tokens of a line and goes on where the line ends. -/
theorem scan_line {line tail : List Char} (hline : '\n' ∉ line) (htail : EndsLine tail)
    (n col : Nat) :
    scan ⟨n, col⟩ (line ++ tail) =
      lineTokensFrom n col line ++ scan ⟨n, col + line.length⟩ tail := by
  induction line using word_induction generalizing col with
  | nil => rfl
  -- A blank: only the column changes.
  | blank c line hblank ih =>
    have hnext : (Position.mk n col).after [c] = ⟨n, col + 1⟩ :=
      Position.after_of_no_feed
        (fun h => hline (List.mem_cons.mpr (.inl (List.mem_singleton.mp h)))) n col
    have hrest : '\n' ∉ line := fun h => hline (List.mem_cons_of_mem c h)
    rw [List.cons_append, scan_blank hblank, lineTokensFrom, wordsFrom_blank hblank]
    show scan ((Position.mk n col).after [c]) (line ++ tail) = _
    rw [hnext, ih hrest (col + 1), List.length_cons]
    rw [show col + 1 + line.length = col + (line.length + 1) by omega]
    rfl
  -- A word: the scan goes on behind it, or behind the line if the word hides the rest.
  | word c line hc ih =>
    rw [List.cons_append, scan_of_not_blank hc, scanWord, ← List.cons_append]
    simp only [takeWord_append htail, dropWord_append htail]
    rw [lineTokensFrom, wordsFrom_eq hc]
    have hsplit := takeWord_append_dropWord (c :: line)
    generalize takeWord (c :: line) = word at hsplit ⊢
    generalize dropWord (c :: line) = rest at hsplit ih ⊢
    rw [← hsplit] at hline ⊢
    have hword : '\n' ∉ word := fun h => hline (List.mem_append_left _ h)
    have hrest : '\n' ∉ rest := fun h => hline (List.mem_append_right _ h)
    -- Hiding the rest of the line ends at the same column as going through it.
    have hbehind : col + word.length + rest.length = col + (word ++ rest).length := by
      rw [List.length_append]
      omega
    simp only [Position.after_of_no_feed hword, takeLine_append hrest htail,
      dropLine_append hrest htail, Position.after_of_no_feed hrest, hbehind]
    by_cases hcomment : startsComment word = true
    · rw [if_pos hcomment, keptWords_comment hcomment]
      rfl
    · have hcomment' : startsComment word = false := by simpa using hcomment
      rw [if_neg hcomment, kindOfWord_eq]
      by_cases hmal : specifiedKind word = .malformed
      · rw [if_pos hmal, keptWords_malformed hcomment' hmal]
        rfl
      · rw [if_neg hmal, keptWords_cons hcomment' hmal, ih hrest, hbehind]
        rfl

/-! ## Whole texts -/

theorem scan_lines (n : Nat) (cs : List Char) :
    scan ⟨n, 1⟩ cs =
      linesTokens n (cs.splitOn '\n') ++ [⟨.eof, "", (Position.mk n 1).after cs⟩] := by
  induction cs using Text.line_induction generalizing n with
  | last line hline =>
    have hends : EndsLine [] := by simp [EndsLine]
    have hscan := scan_line hline hends n 1
    rw [List.append_nil, scan_nil] at hscan
    rw [hscan, List.splitOn_eq_singleton hline, linesTokens, linesTokens, List.append_nil,
      Position.after_of_no_feed hline]
  | feed line rest hline ih =>
    have hends : EndsLine ('\n' :: rest) := by simp [EndsLine]
    have hnext (col : Nat) : (Position.mk n col).next '\n' = ⟨n + 1, 1⟩ := rfl
    rw [scan_line hline hends, scan_blank isBlank_feed, hnext, ih,
      List.splitOn_append_cons_self_of_not_mem hline, Position.after_append_feed hline,
      linesTokens, List.append_assoc]

theorem after_start (cs : List Char) :
    Position.start.after cs = ⟨1 + cs.count '\n', 1 + lastLineLength cs⟩ := by
  -- From the right: a line feed starts a new last line, any other character makes it longer.
  induction cs using List.reverseRecOn with
  | nil => rfl
  | append_singleton cs c ih =>
    rw [Position.after_append, ih, Position.after_cons, Position.after_nil]
    by_cases hc : c = '\n'
    · subst hc
      have hcount : (cs ++ ['\n']).count '\n' = cs.count '\n' + 1 := by simp
      have hlast : lastLineLength (cs ++ ['\n']) = 0 := by simp [lastLineLength]
      rw [Position.next, if_pos rfl, hcount, hlast, Nat.add_assoc]
    · have hcount : (cs ++ [c]).count '\n' = cs.count '\n' := by simp [hc]
      have hlast : lastLineLength (cs ++ [c]) = lastLineLength cs + 1 := by
        simp [lastLineLength, hc]
      rw [Position.next, if_neg hc, hcount, hlast, Nat.add_assoc]

theorem scan_eq (cs : List Char) : scan .start cs = textTokens cs := by
  have hscan := scan_lines 1 cs
  have hstart : (Position.mk 1 1).after cs = _ := after_start cs
  rw [hstart] at hscan
  exact hscan

/-! ## What tokens look like -/

theorem isWord_of_mem_wordsFrom {col : Nat} {line : List Char} :
    ∀ w ∈ wordsFrom col line, IsWord w.2 := by
  induction line using word_induction generalizing col with
  | nil => simp [wordsFrom_nil]
  | blank c line hblank ih =>
    rw [wordsFrom_blank hblank]
    exact ih
  | word c line hc ih =>
    rw [wordsFrom_eq hc]
    intro w hw
    rcases List.mem_cons.mp hw with rfl | hw
    · exact isWord_takeWord hc line
    · exact ih w hw

theorem mem_of_mem_throughFirst {α : Type} {p : α → Bool} {as : List α} {a : α}
    (h : a ∈ throughFirst p as) : a ∈ as := by
  induction as with
  | nil => exact h
  | cons b as ih =>
    unfold throughFirst at h
    split at h
    · rw [List.mem_singleton.mp h]
      exact List.mem_cons_self
    · rcases List.mem_cons.mp h with rfl | h
      · exact List.mem_cons_self
      · exact List.mem_cons_of_mem b (ih h)

theorem mem_of_mem_keptWords {ws : List (Nat × List Char)} {w : Nat × List Char}
    (h : w ∈ keptWords ws) : w ∈ ws :=
  (List.takeWhile_sublist _).mem (mem_of_mem_throughFirst h)

/-- Every token of lines is the token of some word. -/
theorem exists_word_of_mem_linesTokens {n : Nat} {lines : List (List Char)} {t : Token}
    (h : t ∈ linesTokens n lines) : ∃ m w, IsWord w.2 ∧ t = ofWord m w := by
  induction lines generalizing n with
  | nil => cases h
  | cons line lines ih =>
    rw [linesTokens] at h
    rcases List.mem_append.mp h with h | h
    · obtain ⟨w, hw, rfl⟩ := List.mem_map.mp h
      exact ⟨n, w, isWord_of_mem_wordsFrom w (mem_of_mem_keptWords hw), rfl⟩
    · exact ih h

theorem isBlankText_ofWord {m : Nat} {w : Nat × List Char} (h : IsWord w.2) :
    isBlankText (ofWord m w).text = false := by
  obtain ⟨col, word⟩ := w
  obtain ⟨hne, hword⟩ := h
  cases word with
  | nil => exact absurd rfl hne
  | cons c cs =>
    have hc : Text.isBlank c = false := hword c List.mem_cons_self
    simp [isBlankText, ofWord, hc]

theorem stripBlank_textTokens (cs : List Char) : stripBlank (textTokens cs) = textTokens cs := by
  rw [stripBlank, List.filter_eq_self]
  intro t ht
  rcases List.mem_append.mp ht with ht | ht
  · obtain ⟨m, w, hword, rfl⟩ := exists_word_of_mem_linesTokens ht
    simp [isBlankText_ofWord hword]
  · rw [List.mem_singleton.mp ht]
    rfl

theorem ofText_eq (s : String) : ofText s = textTokens s.toList :=
  scan_eq s.toList

theorem lex_eq (s : String) : lex s = textTokens s.toList := by
  rw [lex, ofText_eq, stripBlank_textTokens]

/-- Scanning a text gives its tokens line by line, places included, and no token is blank. -/
theorem scan_line_by_line (s : String) :
    ofText s = textTokens s.toList ∧ lex s = ofText s := by
  refine ⟨ofText_eq s, ?_⟩
  rw [lex_eq, ofText_eq]

example : textTokens "+a+ // 3.\n\t3.2 3.\n3.1".toList =
    [⟨.operand, "+a+", ⟨1, 1⟩⟩, ⟨.malformed, "3.2", ⟨2, 2⟩⟩, ⟨.declare, "3.1", ⟨3, 1⟩⟩,
      ⟨.eof, "", ⟨3, 4⟩⟩] := by
  decide +kernel

end Token

end PiScript
