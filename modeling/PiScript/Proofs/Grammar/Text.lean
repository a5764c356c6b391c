import PiScript.Proofs.Grammar.Program
import PiScript.Proofs.Token.Spelling

/-!
# Texts and their derivations

The parser does not look at places, so whether a text is a program is decided by its spelling: a
text writes a program exactly if some derivation of it is spelled like the text.
-/

namespace PiScript

namespace Grammar

open Parse Token

/-! ## Tokens with one spelling -/

theorem agree_of_spelling {ts us : List Token} (h : ts.map spelling = us.map spelling)
    {t u : Token} (hend : t.spelling = u.spelling) (heof : t.kind = .eof) :
    Agree SameSpelling (ts ++ [t]) (us ++ [u]) := by
  have hsame : ∀ {a b : Token}, a.spelling = b.spelling → SameSpelling a b := by
    intro a b hab
    exact ⟨congrArg Prod.fst hab, congrArg Prod.snd hab⟩
  induction ts generalizing us with
  | nil =>
    cases us with
    | nil => exact .ended [] [] (hsame hend) heof
    | cons b us => simp at h
  | cons a ts ih =>
    cases us with
    | nil => simp at h
    | cons b us =>
      rw [List.map_cons, List.map_cons, List.cons.injEq] at h
      exact .cons (hsame h.1) (ih h.2)

theorem forall_not_malformed {ts us : List Token} (h : ts.map spelling = us.map spelling)
    (hmal : ∀ t ∈ ts, t.kind ≠ .malformed) : ∀ u ∈ us, u.kind ≠ .malformed := by
  intro u hu
  have hmem : u.spelling ∈ ts.map spelling := by
    rw [h]
    exact List.mem_map_of_mem hu
  obtain ⟨t, ht, hspell⟩ := List.mem_map.mp hmem
  have hkind : t.kind = u.kind := congrArg Prod.fst hspell
  rw [← hkind]
  exact hmal t ht

theorem not_malformed_of_ofTokens {ts : List Token} {p : Program}
    (h : Program.ofTokens ts = .ok p) : ∀ t ∈ ts, t.kind ≠ .malformed := by
  unfold Program.ofTokens at h
  split at h
  · cases h
  · exact not_malformed_of_find? ‹_›

/-- Tokens spelled alike in front of an end of file write the same program. -/
theorem ofTokens_of_spelling {ts us : List Token} (h : ts.map spelling = us.map spelling)
    {t u : Token} (hend : t.spelling = u.spelling) (heof : t.kind = .eof) {p : Program}
    (hp : Program.ofTokens (ts ++ [t]) = .ok p) : Program.ofTokens (us ++ [u]) = .ok p := by
  have hts := not_malformed_of_ofTokens hp
  -- Malformed words show in the spelling, so there are none in `us` either.
  have hall : (ts ++ [t]).map spelling = (us ++ [u]).map spelling := by
    rw [List.map_append, List.map_append, h, List.map_singleton, List.map_singleton, hend]
  have hmatch := assemble_matches (fun _ _ => id) (agree_of_spelling h hend heof) [] []
  rw [ofTokens_eq_ok_iff hts] at hp
  rw [ofTokens_eq_ok_iff (forall_not_malformed hall hts)]
  rw [hp] at hmatch
  generalize assemble [] [] (us ++ [u]) = y at hmatch ⊢
  cases hmatch with
  | ok h => rw [h]

/-! ## Texts and derivations -/

theorem beforeEnd_textTokens (cs : List Char) :
    beforeEnd (textTokens cs) = linesTokens 1 (cs.splitOn '\n') := by
  have hwords : ∀ t ∈ linesTokens 1 (cs.splitOn '\n'), t.kind ≠ .eof := by
    intro t ht
    obtain ⟨m, w, -, rfl⟩ := exists_word_of_mem_linesTokens ht
    exact specifiedKind_ne_eof w.2
  rw [textTokens, beforeEnd_append hwords, beforeEnd_of_eof rfl, List.append_nil]

theorem ofTokens_tokens (d : ProgramTree) {stop : Token} (hstop : stop.kind = .eof) :
    Program.ofTokens (d.tokens ++ [stop]) = .ok d.program := by
  have hproper := d.proper_tokens
  have hmal : ∀ t ∈ d.tokens ++ [stop], t.kind ≠ .malformed := by
    intro t ht
    rcases List.mem_append.mp ht with ht | ht
    · exact (hproper t ht).2
    · rw [List.mem_singleton.mp ht, hstop]
      simp
  have hnil : beforeEnd [stop] = [] := beforeEnd_of_eof hstop
  rw [ofTokens_eq_ok_iff_derivation hmal]
  refine ⟨d, ?_, rfl⟩
  rw [beforeEnd_append (fun t ht => (hproper t ht).1), hnil, List.append_nil]

/-- A text writes the program of a derivation that is spelled like the text, and no other. -/
theorem ofText_eq_ok_iff {s : String} {p : Program} :
    Program.ofText s = .ok p ↔
      ∃ d : ProgramTree, d.tokens.map spelling = textSpelling s.toList ∧ d.program = p := by
  rw [Program.ofText, lex_eq]
  constructor
  -- The tokens of the text are those of a derivation, so they are spelled alike.
  · intro h
    rw [ofTokens_eq_ok_iff_derivation (not_malformed_of_ofTokens h), beforeEnd_textTokens] at h
    obtain ⟨d, hd, hp⟩ := h
    refine ⟨d, ?_, hp⟩
    rw [hd, map_spelling_linesTokens]
    rfl
  -- The tokens of the derivation parse, and the text has the same tokens at other places.
  · rintro ⟨d, hd, rfl⟩
    rw [textSpelling, ← map_spelling_linesTokens 1] at hd
    exact ofTokens_of_spelling hd rfl rfl (ofTokens_tokens d rfl)

/-! ## Texts one below the other -/

namespace LinesTree

variable {place : Place}

def append : LinesTree place → LinesTree place → LinesTree place
  | .nil, rest => rest
  | .cons l ls, rest => .cons l (ls.append rest)

theorem tokens_append (ls rest : LinesTree place) :
    (ls.append rest).tokens = ls.tokens ++ rest.tokens := by
  fun_induction append ls rest with
  | case1 => rfl
  | case2 place rest l ls ih => rw [tokens, tokens, ih, List.append_assoc]

theorem program_append (ls rest : LinesTree place) :
    (ls.append rest).program = ls.program ++ rest.program := by
  fun_induction append ls rest with
  | case1 => rfl
  | case2 place rest l ls ih => rw [program, program, ih, List.append_assoc]

end LinesTree

-- No statement looks past its last line, so the derivations follow each other.
theorem exists_joined_derivation {texts : List String} {programs : List Program}
    (h : List.Forall₂ (fun s p => Program.ofText s = .ok p) texts programs) :
    ∃ d : ProgramTree, d.tokens.map spelling = (texts.map String.toList).flatMap textSpelling ∧
      d.program = programs.flatten := by
  induction h with
  | nil => exact ⟨.nil, rfl, rfl⟩
  | cons hfirst rest ih =>
    obtain ⟨d₁, hd₁, hp₁⟩ := ofText_eq_ok_iff.mp hfirst
    obtain ⟨d₂, hd₂, hp₂⟩ := ih
    refine ⟨d₁.append d₂, ?_, ?_⟩
    · rw [LinesTree.tokens_append, List.map_append, hd₁, hd₂, List.map_cons, List.flatMap_cons]
    · rw [LinesTree.program_append, hp₁, hp₂, List.flatten_cons]

/-- Texts joined by line feeds write their programs one behind the other. -/
theorem ofText_intercalate {texts : List String} {programs : List Program}
    (h : List.Forall₂ (fun s p => Program.ofText s = .ok p) texts programs) :
    Program.ofText ("\n".intercalate texts) = .ok programs.flatten := by
  obtain ⟨d, hd, hp⟩ := exists_joined_derivation h
  refine ofText_eq_ok_iff.mpr ⟨d, ?_, hp⟩
  rw [String.toList_intercalate]
  show _ = textSpelling (['\n'].intercalate _)
  rw [textSpelling_intercalate, hd]

end Grammar

end PiScript
