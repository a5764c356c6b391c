import PiScript.Proofs.Grammar.Text
import PiScript.Proofs.Grammar.Viable
import PiScript.Proofs.Token.Order

/-!
# Where parsing fails

Parsing fails at the first token that cannot be continued. The tokens before it can be completed to
a program, by finishing the line they stop in and ending all open blocks; and with that token next
there is no program, whatever comes behind. `Viable` says this of single lines, and `assemble`
reads line after line.
-/

namespace PiScript

namespace Grammar

open Parse

/-! ## From lines to programs -/

def AtEnd (ts : List Token) : Prop :=
  headKind ts = .eof

/-- What reading a whole program gives: nothing remains behind it. -/
def whole (p : Program) (_post : List Token) : Program :=
  p

theorem Blames.of_cons {β γ : Type} {P : List Token → Prop} {out : β → List Token → γ}
    {r r' : List Token → Except Failure γ} {t : Token} {ts : List Token}
    (heq : ∀ us, r (t :: us) = r' us) (h : Blames P out r' ts) : Blames P out r (t :: ts) := by
  intro f hf
  rw [heq] at hf
  obtain ⟨hkind, front, rfl, hsame, us, b, hus, hread⟩ := h f hf
  refine ⟨hkind, t :: front, rfl, ?_, us, b, hus, ?_⟩
  · intro us hus
    rw [List.cons_append, heq, hsame us hus]
  · intro post hpost
    rw [List.cons_append, heq, hread post hpost]

/-- Ending all open blocks finishes a program. -/
theorem finishes_assemble (blocks : List OpenBlock) (read : List Stmt) :
    Finishes AtEnd whole (assemble blocks read) := by
  induction blocks generalizing read with
  | nil =>
    refine ⟨[], read.reverse, proper_nil, ?_⟩
    intro post hpost
    refine ⟨?_, assemble_eof hpost read⟩
    show (headKind post).isOperator = false
    rw [show headKind post = .eof from hpost]
    rfl
  | cons block outer ih =>
    obtain ⟨us, p, hus, hread⟩ := ih (block.close read)
    let close : Word .endBlock := ⟨⟨.endBlock, "3.14159265", .start⟩, rfl⟩
    refine ⟨close.token :: lineEndToken :: us, p, ?_, ?_⟩
    · simpa [close, lineEndToken] using hus
    · intro post hpost
      refine ⟨rfl, ?_⟩
      rw [← (hread post hpost).2]
      exact assemble_endBlock block outer read close ⟨lineEndToken, rfl⟩ (us ++ post)

theorem finishes_resume (blocks : List OpenBlock) (read : List Stmt) (line : Line) :
    Finishes AtEnd whole (resume blocks read line) := by
  cases line with
  | blank => exact finishes_assemble blocks read
  | statement s => exact finishes_assemble blocks (s :: read)
  | opening head => exact finishes_assemble (⟨head, read⟩ :: blocks) []

theorem assemble_close_andThen {t : Token} (h : t.kind = .endBlock) (block : OpenBlock)
    (outer : List OpenBlock) (read : List Stmt) (us : List Token) :
    assemble (block :: outer) read (t :: us) =
      andThen (fun us => do return ((), ← lineEnd us))
        (fun _ => assemble outer (block.close read)) us := by
  have hkind : headKind (t :: us) = .endBlock := h
  rw [assemble_close_eq hkind, andThen]
  show (lineEnd us >>= _) = _
  cases lineEnd us with
  | error f => rfl
  | ok rest => rfl

theorem assemble_line_andThen {t : Token} {blocks : List OpenBlock} (heof : t.kind ≠ .eof)
    (hkind : t.kind = .endBlock → blocks = []) (read : List Stmt) (us : List Token) :
    assemble blocks read (t :: us) =
      andThen (fun us => readLine (t :: us)) (resume blocks read) us := by
  have heof' : headKind (t :: us) ≠ .eof := heof
  exact assemble_line_eq heof' hkind read

theorem assemble_blames (blocks : List OpenBlock) (read : List Stmt) (ts : List Token) :
    Blames AtEnd whole (assemble blocks read) ts := by
  -- The induction is on the number of tokens: every step takes at least one.
  induction hn : ts.length using Nat.strongRecOn generalizing blocks read ts with
  | ind n ih =>
    subst hn
    by_cases heof : headKind ts = .eof
    -- The end of the file inside a block: its end could have come instead.
    · intro f h
      rw [assemble_eof_eq heof] at h
      by_cases hempty : blocks.isEmpty = true
      · rw [if_pos hempty] at h
        cases h
      · rw [if_neg hempty] at h
        cases h
        obtain ⟨us, p, hus, hread⟩ := finishes_assemble blocks read
        refine ⟨rfl, [], rfl, ?_, us, p, hus, fun post hpost => (hread post hpost).2⟩
        intro us hus
        have heof' : headKind us = .eof := (headKind_eq_of_head? hus).trans heof
        show assemble blocks read us = _
        rw [assemble_eof_eq heof', if_neg hempty]
    · cases ts with
      | nil => exact absurd rfl heof
      | cons t ts =>
        rcases closes_or_not (t :: ts) blocks with ⟨hkind, block, outer, rfl⟩ | hkind
        · apply Blames.of_cons (assemble_close_andThen hkind block outer read)
          apply (oneToken_stop ()).viable.blames_andThen
          · intro a
            exact finishes_assemble outer (block.close read)
          · intro a rest hrest
            obtain ⟨rest', hend, heq⟩ := exists_of_bind_eq_ok hrest
            cases heq
            obtain ⟨stop, -, rfl⟩ := lineEnd_eq_ok hend
            apply ih rest.length _ _ _ _ rfl
            simp only [List.length_cons]
            omega
        · apply Blames.of_cons (assemble_line_andThen heof hkind read)
          apply (viable_readLine heof).blames_andThen (finishes_resume blocks read)
          intro line rest hrest
          have hlt := length_readLine_lt heof hrest
          cases line with
          | blank => exact ih _ hlt _ _ _ rfl
          | statement s => exact ih _ hlt _ _ _ rfl
          | opening head => exact ih _ hlt _ _ _ rfl

/-! ## Whole token lists -/

theorem exists_failure_of_ofTokens {ts : List Token} {e : Error}
    (hmal : ∀ t ∈ ts, t.kind ≠ .malformed) (h : Program.ofTokens ts = .error e) :
    ∃ f, assemble [] [] ts = .error f ∧ e = f.toError ts := by
  rw [ofTokens_eq hmal] at h
  cases hread : assemble [] [] ts with
  | ok p =>
    rw [hread] at h
    cases h
  | error f =>
    rw [hread] at h
    cases h
    exact ⟨f, rfl, rfl⟩

/-- Parsing fails at the end of file at the latest. -/
theorem rest_ne_nil {ts : List Token} {stop : Token} {f : Failure} (hstop : stop.kind = .eof)
    (hfail : assemble [] [] (ts ++ [stop]) = .error f) : f.rest ≠ [] := by
  have hmatch := assemble_matches sameSpelling_of_eq (agree_behind ts hstop [] []) [] []
  rw [hfail] at hmatch
  cases hmatch with
  | error cause hagree =>
    cases hagree with
    | ended => simp
    | cons => simp

/-- Tokens without malformed words and with an end of file behind them fail at the first token that
cannot be continued. -/
theorem ofTokens_error {ts : List Token} {stop : Token} {e : Error} (hstop : stop.kind = .eof)
    (hmal : ∀ t ∈ ts ++ [stop], t.kind ≠ .malformed)
    (h : Program.ofTokens (ts ++ [stop]) = .error e) :
    e.cause.kind = .grammar ∧ ∃ before t after, ts ++ [stop] = before ++ t :: after ∧
      e.pos = some t.pos ∧ (∃ us p, Program.ofTokens (before ++ us) = .ok p) ∧
      ∀ us p, Program.ofTokens (before ++ t :: us) ≠ .ok p := by
  obtain ⟨f, hfail, rfl⟩ := exists_failure_of_ofTokens hmal h
  obtain ⟨hkind, front, hts, hsame, us, p, hus, hfinish⟩ := assemble_blames [] [] _ f hfail
  -- What stands in front of the failure begins a program: the completion has no malformed words.
  have hmal' : ∀ t ∈ front ++ us, t.kind ≠ .malformed := by
    intro t ht
    rcases List.mem_append.mp ht with ht | ht
    · exact hmal t (hts ▸ List.mem_append_left _ ht)
    · exact (hus t ht).2
  have hviable : Program.ofTokens (front ++ us) = .ok p := by
    rw [ofTokens_eq_ok_iff hmal', ← List.append_nil us]
    exact hfinish [] rfl
  obtain ⟨t, after, hcons⟩ := List.exists_cons_of_ne_nil (rest_ne_nil hstop hfail)
  rw [hcons] at hts hsame
  refine ⟨hkind, front, t, after, hts, ?_, ⟨us, p, hviable⟩, ?_⟩
  · show some (Failure.place _ f.rest) = some t.pos
    rw [hcons]
    rfl
  · intro us p hp
    rw [ofTokens_eq_ok_iff (not_malformed_of_ofTokens hp), hsame (t :: us) rfl] at hp
    cases hp

/-! ## Texts -/

/-- The token that keeps a text from being a program: its first malformed word, or else the token in
front of which parsing stops. -/
def offender? (s : String) : Option Token :=
  match (Token.lex s).find? (·.kind = .malformed) with
  | some t => some t
  | none =>
    match assemble [] [] (Token.lex s) with
    | .ok _ => none
    | .error f => f.rest.head?

/-- A text that is no program is reported as wrong at the token that keeps it from being one. -/
theorem exists_offender {s : String} {e : Error} (h : Program.ofText s = .error e) :
    ∃ t ∈ Token.lex s, offender? s = some t ∧ e.pos = some t.pos ∧
      e.cause.kind = if t.kind = .malformed then .lexical else .grammar := by
  cases hfind : (Token.lex s).find? (·.kind = .malformed) with
  | some t =>
    rw [Program.ofText, ofTokens_of_find? hfind] at h
    obtain rfl := Except.error.inj h
    have hmal : t.kind = .malformed := by simpa using List.find?_some hfind
    refine ⟨t, List.mem_of_find?_eq_some hfind, ?_, rfl, ?_⟩
    · rw [offender?, hfind]
    · rw [if_pos hmal]
      rfl
  | none =>
    have hmal := not_malformed_of_find? hfind
    obtain ⟨f, hfail, rfl⟩ := exists_failure_of_ofTokens hmal h
    obtain ⟨ts, stop, hlex, hstop⟩ := Token.exists_lex_eq s
    -- The failure leaves the tokens from the offending one on, and there is one.
    obtain ⟨hkind, front, hts, -⟩ := assemble_blames [] [] _ f hfail
    obtain ⟨t, after, hcons⟩ := List.exists_cons_of_ne_nil (rest_ne_nil hstop (hlex ▸ hfail))
    have hmem : t ∈ Token.lex s := by
      rw [hts, hcons]
      simp
    refine ⟨t, hmem, ?_, ?_, ?_⟩
    · rw [offender?, hfind, hfail]
      show f.rest.head? = some t
      rw [hcons, List.head?_cons]
    · show some (Failure.place _ f.rest) = some t.pos
      rw [hcons]
      rfl
    · rw [if_neg (hmal t hmem), ← hkind]
      rfl

/-- A text without malformed words that is no program is reported as wrong at exactly one of its
tokens, the first that cannot be continued: the tokens before it begin some program, and no program
begins with them and it. A text with malformed words is reported as wrong at the first of these. -/
theorem error_at_first_bad_token (s : String) :
    (∀ e, (∀ t ∈ Token.lex s, t.kind ≠ .malformed) → Program.ofText s = .error e →
      e.report.kind = .grammar ∧ ∃ before t after, Token.lex s = before ++ t :: after ∧
        (e.report.line = some t.pos.line ∧ e.report.col = some t.pos.col) ∧
        (∀ u ∈ before ++ after, u.pos ≠ t.pos) ∧
        (∃ us p, Program.ofTokens (before ++ us) = .ok p) ∧
        ∀ us p, Program.ofTokens (before ++ t :: us) ≠ .ok p) ∧
    (∀ before t after, Token.lex s = before ++ t :: after →
      (∀ u ∈ before, u.kind ≠ .malformed) → t.kind = .malformed →
      ∃ e, Program.ofText s = .error e ∧ e.report.kind = .lexical ∧
        e.report.line = some t.pos.line ∧ e.report.col = some t.pos.col) := by
  constructor
  · intro e hmal h
    obtain ⟨ts, stop, hlex, hstop⟩ := Token.exists_lex_eq s
    rw [Program.ofText, hlex] at h
    rw [hlex] at hmal
    obtain ⟨hkind, before, t, after, hts, hpos, hviable, hdead⟩ := ofTokens_error hstop hmal h
    have hsplit : Token.lex s = before ++ t :: after := hlex.trans hts
    refine ⟨hkind, before, t, after, hsplit, ?_, Token.pos_ne_of_lex_eq hsplit, hviable, hdead⟩
    rw [Error.report, hpos]
    exact ⟨rfl, rfl⟩
  · intro before t after hlex hbefore ht
    have hfind : (Token.lex s).find? (·.kind = .malformed) = some t := by
      rw [hlex, List.find?_append, find?_malformed hbefore,
        List.find?_cons_of_pos (by simpa using ht)]
      rfl
    refine ⟨⟨.unexpectedWord t.text, some t.pos⟩, ?_, rfl, rfl, rfl⟩
    rw [Program.ofText, Program.ofTokens, hfind]

/-- A branch without a condition, below a line that prints. -/
def bareBranch : String := "+a+ 3.\n3.14 3."

def bareBranchTokens : List Token :=
  [⟨.operand, "+a+", ⟨1, 1⟩⟩, ⟨.lineEnd, "3.", ⟨1, 5⟩⟩, ⟨.branch, "3.14", ⟨2, 1⟩⟩,
   ⟨.lineEnd, "3.", ⟨2, 6⟩⟩, ⟨.eof, "", ⟨2, 8⟩⟩]

theorem lex_bareBranch : Token.lex bareBranch = bareBranchTokens := by
  rw [Token.lex_eq]
  decide +kernel

theorem ofText_bareBranch :
    Program.ofText bareBranch = .error ⟨.missingCondition, some ⟨2, 6⟩⟩ := by
  rw [Program.ofText, lex_bareBranch, ofTokens_eq (by decide)]
  let line : SimpleLine := .print (.operand ⟨⟨.operand, "+a+", ⟨1, 1⟩⟩, rfl⟩)
    ⟨⟨.lineEnd, "3.", ⟨1, 5⟩⟩, rfl⟩
  have hsplit : bareBranchTokens = line.tokens ++ bareBranchTokens.drop 2 := rfl
  rw [hsplit, assemble_simple, assemble_line_eq (by decide) (by decide)]
  rfl

def twoMalformed : String := "3. 3.2\n3.3"

theorem lex_twoMalformed : Token.lex twoMalformed =
    [⟨.lineEnd, "3.", ⟨1, 1⟩⟩] ++ ⟨.malformed, "3.2", ⟨1, 4⟩⟩ ::
      [⟨.malformed, "3.3", ⟨2, 1⟩⟩, ⟨.eof, "", ⟨2, 4⟩⟩] := by
  rw [Token.lex_eq]
  decide +kernel

/-- The branch is reported at the line end behind it, before which a condition could have come, and
the malformed words at the first of them. -/
theorem bareBranch_and_twoMalformed_places :
    (∃ before t after, Token.lex bareBranch = before ++ t :: after ∧ t.pos = ⟨2, 6⟩ ∧
      ∃ us p, Program.ofTokens (before ++ us) = .ok p) ∧
    (∃ e, Program.ofText twoMalformed = .error e ∧ e.report.kind = .lexical ∧
      e.report.line = some 1 ∧ e.report.col = some 4) := by
  constructor
  · have hmal : ∀ t ∈ Token.lex bareBranch, t.kind ≠ .malformed := by
      rw [lex_bareBranch]
      decide
    obtain ⟨-, before, t, after, hlex, ⟨hline, hcol⟩, -, hviable, -⟩ :=
      (error_at_first_bad_token bareBranch).1 _ hmal ofText_bareBranch
    have hpos : (⟨2, 6⟩ : Position) = t.pos :=
      congr (congrArg Position.mk (Option.some.inj hline)) (Option.some.inj hcol)
    exact ⟨before, t, after, hlex, hpos.symm, hviable⟩
  · exact (error_at_first_bad_token twoMalformed).2 _ _ _ lex_twoMalformed (by decide) rfl

end Grammar

end PiScript
