import PiScript.Proofs.Grammar.ErrorPlace

/-!
# Open blocks

How deep a token list is nested, said without the grammar: every token that opens a block goes one
level down, every end of a block one level up, and an end where no block is open stays where it is.
The parser agrees with this count. When it has read a whole program the count is back at zero, and
when it reports an unterminated block the count is not.
-/

namespace PiScript

namespace Grammar

open Parse

/-! ## The count -/

/-- How many blocks are open behind a token of kind `k` if `d` are open in front of it. -/
def nest (d : Nat) (k : TokenKind) : Nat :=
  if k.opensBlock then d + 1 else if k = .endBlock then d - 1 else d

/-- How many blocks are open behind the tokens if `d` are open in front of them. -/
def openBlocks (d : Nat) (ts : List Token) : Nat :=
  ts.foldl (fun d t => nest d t.kind) d

@[simp]
theorem openBlocks_nil (d : Nat) : openBlocks d [] = d :=
  rfl

@[simp]
theorem openBlocks_cons (d : Nat) (t : Token) (ts : List Token) :
    openBlocks d (t :: ts) = openBlocks (nest d t.kind) ts :=
  rfl

theorem openBlocks_append (d : Nat) (ts us : List Token) :
    openBlocks d (ts ++ us) = openBlocks (openBlocks d ts) us :=
  List.foldl_append

@[simp]
theorem nest_operator (d : Nat) (op : Operator) : nest d (.operator op) = d :=
  rfl

theorem ExprTree.openBlocks_tokens (e : ExprTree) (d : Nat) : openBlocks d e.tokens = d := by
  cases e <;> simp [tokens, nest, TokenKind.opensBlock]

theorem SimpleLine.openBlocks_tokens (l : SimpleLine) (d : Nat) : openBlocks d l.tokens = d := by
  cases l with
  | print e stop =>
    rw [tokens, openBlocks_append, e.openBlocks_tokens]
    simp [nest, TokenKind.opensBlock]
  | declare keyword name separator init stop =>
    cases init with
    | none => simp [tokens, nest, TokenKind.opensBlock]
    | some e => simp [tokens, openBlocks_append, e.openBlocks_tokens, nest, TokenKind.opensBlock]
  | _ => simp [tokens, nest, TokenKind.opensBlock]

theorem Opening.openBlocks_tokens (o : Opening) (d : Nat) : openBlocks d o.tokens = d + 1 := by
  cases o <;>
    simp [tokens, openBlocks_append, ExprTree.openBlocks_tokens, nest, TokenKind.opensBlock]

/-! ## What a line can fail with -/

/-- The failure, if it is one, is not that of a block that is still open. -/
def InLine {α : Type} (x : Except Failure α) : Prop :=
  ∀ f, x = .error f → f.cause ≠ .unterminatedBlock

theorem inLine_ok {α : Type} (a : α) : InLine (.ok a) := by
  intro f h
  cases h

theorem inLine_error {α : Type} {cause : Cause} (h : cause ≠ .unterminatedBlock)
    (ts : List Token) : InLine (.error ⟨cause, ts⟩ : Except Failure α) := by
  intro f hf
  cases hf
  exact h

theorem InLine.bind {α β : Type} {x : Except Failure α} {k : α → Except Failure β}
    (hx : InLine x) (hk : ∀ a, InLine (k a)) : InLine (x >>= k) := by
  cases x with
  | ok a => exact hk a
  | error f =>
    intro g hg
    cases hg
    exact hx f rfl

theorem inLine_lineEnd (ts : List Token) : InLine (lineEnd ts) := by
  unfold lineEnd
  split
  · exact inLine_ok _
  · exact inLine_error (by simp) ts

theorem inLine_operand (ts : List Token) : InLine (operand ts) := by
  unfold operand
  split
  · exact inLine_ok _
  · exact inLine_error (by simp) ts

theorem inLine_name {missing notText : Cause} (hmissing : missing ≠ .unterminatedBlock)
    (hnotText : notText ≠ .unterminatedBlock) (ts : List Token) :
    InLine (Parse.name missing notText ts) := by
  unfold Parse.name
  split
  · exact inLine_ok _
  · exact inLine_error hnotText ts
  · exact inLine_error hmissing ts

theorem inLine_expr? (ts : List Token) : InLine (expr? ts) := by
  unfold expr?
  split
  · exact inLine_ok _
  · exact inLine_ok _
  · refine (inLine_operand ts).bind fun x => InLine.bind ?_ fun y => inLine_ok _
    unfold exprTail
    split
    · exact (inLine_operand _).bind fun y => inLine_ok _
    · exact inLine_ok _

theorem inLine_endStatement (s : Stmt) (ts : List Token) : InLine (endStatement s ts) :=
  (inLine_lineEnd ts).bind fun _ => inLine_ok _

theorem inLine_endOpening (head : BlockHead) (ts : List Token) : InLine (endOpening head ts) :=
  (inLine_lineEnd ts).bind fun _ => inLine_ok _

theorem inLine_declaration (ts : List Token) : InLine (declaration ts) := by
  refine (inLine_name (by simp) (by simp) ts).bind ?_
  rintro ⟨x, ts'⟩
  show InLine (if headKind ts' = .declare then _ else throw _)
  split
  · exact (inLine_expr? _).bind fun _ => inLine_endStatement _ _
  · exact inLine_error (by simp) ts'

theorem inLine_loop (ts : List Token) : InLine (loop ts) := by
  refine (inLine_expr? ts).bind ?_
  rintro ⟨cond, ts'⟩
  refine (inLine_expr? ts').bind ?_
  rintro ⟨step, ts''⟩
  cases cond with
  | none => exact inLine_error (by simp) ts''
  | some cond =>
    cases step with
    | none => exact inLine_error (by simp) ts''
    | some step => exact inLine_endOpening _ ts''

theorem inLine_branch (ts : List Token) : InLine (branch ts) := by
  refine (inLine_expr? ts).bind ?_
  rintro ⟨cond, ts'⟩
  cases cond with
  | none => exact inLine_error (by simp) ts'
  | some cond => exact inLine_endOpening _ ts'

theorem inLine_readLine (ts : List Token) : InLine (readLine ts) := by
  unfold readLine
  split
  · exact inLine_ok _
  · exact (inLine_name (by simp) (by simp) _).bind fun _ => inLine_endStatement _ _
  · exact (inLine_expr? ts).bind fun _ => inLine_endStatement _ _
  · exact inLine_declaration _
  · exact (inLine_name (by simp) (by simp) _).bind fun _ =>
      (inLine_name (by simp) (by simp) _).bind fun _ => inLine_endOpening _ _
  · exact inLine_loop _
  · exact inLine_branch _
  · exact (inLine_name (by simp) (by simp) _).bind fun _ => inLine_endOpening _ _
  · exact (inLine_name (by simp) (by simp) _).bind fun _ => inLine_endStatement _ _
  all_goals exact inLine_ok _

/-! ## The parser and the count -/

/-- The result of reading `ts` inside `d` blocks agrees with the count: nothing is open behind a
whole program, and something is where an unterminated block is reported. -/
structure Settles (d : Nat) (ts : List Token) (x : Except Failure Program) : Prop where
  ok : ∀ p, x = .ok p → openBlocks d (beforeEnd ts) = 0
  unterminated : ∀ f, x = .error f → f.cause = .unterminatedBlock →
    0 < openBlocks d (beforeEnd ts)

theorem Settles.of_ok {d : Nat} {ts : List Token} {p : Program}
    (h : openBlocks d (beforeEnd ts) = 0) : Settles d ts (.ok p) where
  ok _ _ := h
  unterminated f hf := by cases hf

theorem Settles.of_unterminated {d : Nat} {ts : List Token} {f : Failure}
    (h : 0 < openBlocks d (beforeEnd ts)) : Settles d ts (.error f) where
  ok p hp := by cases hp
  unterminated _ _ _ := h

theorem Settles.of_inLine {d : Nat} {ts : List Token} {f : Failure}
    (h : f.cause ≠ .unterminatedBlock) : Settles d ts (.error f) where
  ok p hp := by cases hp
  unterminated g hg hcause := by
    cases hg
    exact absurd hcause h

/-- Tokens in front that lead from `d` open blocks to `d'`. -/
theorem Settles.front {d d' : Nat} (us : List Token) {ts : List Token}
    {x : Except Failure Program} (hproper : Proper us) (hus : openBlocks d us = d')
    (h : Settles d' ts x) : Settles d (us ++ ts) x := by
  have hcount : openBlocks d (beforeEnd (us ++ ts)) = openBlocks d' (beforeEnd ts) := by
    rw [beforeEnd_append fun t ht => (hproper t ht).1, openBlocks_append, hus]
  constructor
  · intro p hp
    rw [hcount]
    exact h.ok p hp
  · intro f hf hcause
    rw [hcount]
    exact h.unterminated f hf hcause

theorem assemble_settles {blocks : List OpenBlock} {read : List Stmt} {ts : List Token}
    (hmal : ∀ t ∈ ts, t.kind ≠ .malformed) :
    Settles blocks.length ts (assemble blocks read ts) := by
  -- The induction is on the number of tokens: every step takes at least one.
  induction hn : ts.length using Nat.strongRecOn generalizing blocks read ts with
  | ind n ih =>
    subst hn
    by_cases heof : headKind ts = .eof
    · rw [assemble_eof_eq heof]
      cases blocks with
      | nil => exact Settles.of_ok (by rw [beforeEnd_of_eof heof]; rfl)
      | cons block outer =>
        exact Settles.of_unterminated (by rw [beforeEnd_of_eof heof]; exact Nat.succ_pos _)
    · rcases closes_or_not ts blocks with ⟨hkind, block, outer, rfl⟩ | hkind
      · rw [assemble_close_eq hkind]
        cases hend : lineEnd ts.tail with
        | error f => exact Settles.of_inLine (inLine_lineEnd ts.tail f hend)
        | ok rest =>
          obtain ⟨close, hts⟩ := exists_word hkind (by simp)
          obtain ⟨stop, htail⟩ := exists_of_lineEnd hend
          rw [htail] at hts
          have hrest : ∀ t ∈ rest, t.kind ≠ .malformed := fun t ht => hmal t (by simp [hts, ht])
          have hlt : rest.length < ts.length := by
            rw [hts]
            simp only [List.length_cons]
            omega
          rw [hts]
          refine Settles.front [close.token, stop.token] (by simp) ?_ (ih _ hlt hrest rfl)
          simp [nest, TokenKind.opensBlock]
      · rw [assemble_line_eq heof hkind]
        cases hline : readLine ts with
        | error f => exact Settles.of_inLine (inLine_readLine ts f hline)
        | ok x =>
          obtain ⟨line, rest⟩ := x
          have hlt := length_readLine_lt heof hline
          have hfirst : headKind ts ≠ .malformed := by
            cases ts with
            | nil => exact absurd rfl heof
            | cons t ts => exact hmal t (by simp)
          rcases readLine_cases heof hfirst hline with ⟨l, rfl, rfl⟩ | ⟨o, rfl, rfl⟩ | ⟨w, rfl, rfl⟩
          · have hrest : ∀ t ∈ rest, t.kind ≠ .malformed := fun t ht => hmal t (by simp [ht])
            refine Settles.front l.tokens l.proper_tokens (l.openBlocks_tokens _) ?_
            cases l.statement? with
            | none => exact ih _ hlt hrest rfl
            | some s => exact ih _ hlt hrest rfl
          · have hrest : ∀ t ∈ rest, t.kind ≠ .malformed := fun t ht => hmal t (by simp [ht])
            refine Settles.front o.tokens o.proper_tokens (o.openBlocks_tokens _) ?_
            show Settles (⟨o.head, read⟩ :: blocks).length rest _
            exact ih _ hlt hrest rfl
          -- Such an end is passed over only outside every block, where the count stays at zero.
          · have hrest : ∀ t ∈ rest, t.kind ≠ .malformed := fun t ht => hmal t (by simp [ht])
            obtain rfl : blocks = [] := hkind w.kind_token
            refine Settles.front [w.token] (by simp) ?_ (ih _ hlt hrest rfl)
            simp [nest, TokenKind.opensBlock]

/-! ## Texts -/

theorem openBlocks_lex (text : String) (d : Nat) :
    openBlocks d (Token.lex text) = openBlocks d (beforeEnd (Token.lex text)) := by
  rw [Token.lex_eq, beforeEnd_textTokens, Token.textTokens, openBlocks_append]
  rfl

theorem openBlocks_of_ofText {text : String} {p : Program} (h : Program.ofText text = .ok p) :
    openBlocks 0 (Token.lex text) = 0 := by
  have hmal := not_malformed_of_ofTokens h
  rw [openBlocks_lex]
  exact (assemble_settles hmal).ok p ((ofTokens_eq_ok_iff hmal).mp h)

theorem openBlocks_of_unterminated {text : String} {e : Error}
    (h : Program.ofText text = .error e) (hcause : e.cause = .unterminatedBlock) :
    0 < openBlocks 0 (Token.lex text) := by
  rw [Program.ofText] at h
  cases hfind : (Token.lex text).find? (·.kind = .malformed) with
  | some t =>
    rw [ofTokens_of_find? hfind] at h
    cases h
    cases hcause
  | none =>
    have hmal := not_malformed_of_find? hfind
    obtain ⟨f, hfail, rfl⟩ := exists_failure_of_ofTokens hmal h
    rw [openBlocks_lex]
    exact (assemble_settles hmal).unterminated f hfail hcause

end Grammar

end PiScript
