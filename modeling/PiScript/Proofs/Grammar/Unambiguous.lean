import PiScript.Proofs.Grammar.Exactness

/-!
# The grammar is unambiguous

Two derivations of the same tokens are the same derivation. Every piece of a line is determined by
the tokens it starts with together with a condition on what follows: nothing for a line, no
operator for an expression, the end of the block or of the program for a sequence of lines.
-/

namespace PiScript

namespace Grammar

open Parse

/-! ## Words -/

@[simp]
theorem Word.token_inj {k : TokenKind} {w w' : Word k} : w.token = w'.token ↔ w = w' := by
  cases w
  cases w'
  simp

@[simp]
theorem NameWord.token_inj {w w' : NameWord} : w.token = w'.token ↔ w = w' := by
  refine ⟨fun h => ?_, fun h => h ▸ rfl⟩
  have hname : Value.text w.name = Value.text w'.name := by
    rw [← w.decodes, ← w'.decodes, h]
  cases w
  cases w'
  simp_all

@[simp]
theorem OperatorWord.token_inj {w w' : OperatorWord} : w.token = w'.token ↔ w = w' := by
  refine ⟨fun h => ?_, fun h => h ▸ rfl⟩
  have hop : TokenKind.operator w.op = .operator w'.op := by
    rw [← w.kind_token, ← w'.kind_token, h]
  cases w
  cases w'
  simp_all

/-! ## Expressions -/

theorem ExprTree.unique {e e' : ExprTree} {rest rest' : List Token}
    (hrest : (headKind rest).isOperator = false) (hrest' : (headKind rest').isOperator = false)
    (h : e.tokens ++ rest = e'.tokens ++ rest') : e = e' ∧ rest = rest' := by
  cases e with
  | operand v =>
    cases e' with
    | operand v' => simpa [tokens] using h
    | binary left op right =>
      -- The operator that follows `left` would have to follow `v`.
      have htail : rest = op.token :: right.token :: rest' := by
        simp only [tokens, List.cons_append, List.nil_append, List.cons.injEq] at h
        exact h.2
      rw [htail, headKind_cons, op.kind_token] at hrest
      cases hrest
  | binary left op right =>
    cases e' with
    | operand v =>
      have htail : op.token :: right.token :: rest = rest' := by
        simp only [tokens, List.cons_append, List.nil_append, List.cons.injEq] at h
        exact h.2
      rw [← htail, headKind_cons, op.kind_token] at hrest'
      cases hrest'
    | binary left' op' right' =>
      simp only [tokens, List.cons_append, List.nil_append, List.cons.injEq, Word.token_inj,
        OperatorWord.token_inj] at h
      obtain ⟨rfl, rfl, rfl, rfl⟩ := h
      exact ⟨rfl, rfl⟩

theorem isOperator_lineEnd (stop : Word .lineEnd) (rest : List Token) :
    (headKind (stop.token :: rest)).isOperator = false := by
  rw [headKind_cons, stop.kind_token]
  rfl

theorem optionalExpr_unique {e e' : Option ExprTree} {stop stop' : Word .lineEnd}
    {rest rest' : List Token}
    (h : (e.map ExprTree.tokens).getD [] ++ stop.token :: rest =
      (e'.map ExprTree.tokens).getD [] ++ stop'.token :: rest') :
    e = e' ∧ stop = stop' ∧ rest = rest' := by
  -- An expression starts with an operand, the end of the line does not.
  have hkind := congrArg headKind h
  cases e with
  | none =>
    cases e' with
    | none => simpa using h
    | some e' => simp at hkind
  | some e =>
    cases e' with
    | none => simp at hkind
    | some e' =>
      have hunique := ExprTree.unique (isOperator_lineEnd stop rest)
        (isOperator_lineEnd stop' rest') h
      simpa using hunique

/-! ## Lines -/

theorem SimpleLine.unique {l l' : SimpleLine} {rest rest' : List Token}
    (h : l.tokens ++ rest = l'.tokens ++ rest') : l = l' ∧ rest = rest' := by
  -- The first token tells the form of the line; the rest is compared token by token.
  have hkind : l.firstKind = l'.firstKind := by
    rw [← l.headKind_tokens rest, h, l'.headKind_tokens]
  cases l with
  | empty stop =>
    cases l' with
    | empty stop' => simpa [tokens] using h
    | _ => simp [firstKind] at hkind
  | stray w =>
    cases l' with
    | stray w' => simpa [tokens] using h
    | _ => simp [firstKind] at hkind
  | inclusion marker path stop =>
    cases l' with
    | inclusion marker' path' stop' => simpa [tokens, and_assoc] using h
    | _ => simp [firstKind] at hkind
  | print e stop =>
    cases l' with
    | print e' stop' =>
      have htokens : ((some e).map ExprTree.tokens).getD [] ++ stop.token :: rest =
          ((some e').map ExprTree.tokens).getD [] ++ stop'.token :: rest' := by
        simpa [tokens] using h
      have hunique := optionalExpr_unique htokens
      simpa [and_assoc] using hunique
    | _ => simp [firstKind] at hkind
  | declare keyword name separator init stop =>
    cases l' with
    | declare keyword' name' separator' init' stop' =>
      simp only [tokens, List.cons_append, List.append_assoc, List.nil_append, List.cons.injEq,
        Word.token_inj, NameWord.token_inj] at h
      obtain ⟨rfl, rfl, rfl, h⟩ := h
      obtain ⟨rfl, rfl, rfl⟩ := optionalExpr_unique h
      exact ⟨rfl, rfl⟩
    | _ => simp [firstKind] at hkind
  | call keyword name stop =>
    cases l' with
    | call keyword' name' stop' => simpa [tokens, and_assoc] using h
    | _ => simp [firstKind] at hkind

theorem Opening.unique {o o' : Opening} {rest rest' : List Token}
    (h : o.tokens ++ rest = o'.tokens ++ rest') : o = o' ∧ rest = rest' := by
  have hkind : o.firstKind = o'.firstKind := by
    rw [← o.headKind_tokens rest, h, o'.headKind_tokens]
  cases o with
  | forEach keyword source item stop =>
    cases o' with
    | forEach keyword' source' item' stop' => simpa [tokens, and_assoc] using h
    | _ => simp [firstKind] at hkind
  | loop keyword cond step stop =>
    cases o' with
    | loop keyword' cond' step' stop' =>
      simp only [tokens, List.cons_append, List.append_assoc, List.nil_append, List.cons.injEq,
        Word.token_inj] at h
      obtain ⟨rfl, hcond⟩ := h
      -- The step starts with an operand, so the condition ends in front of it.
      obtain ⟨rfl, hstep⟩ := ExprTree.unique (by rw [step.headKind_tokens]; rfl)
        (by rw [step'.headKind_tokens]; rfl) hcond
      obtain ⟨rfl, hstop⟩ := ExprTree.unique (isOperator_lineEnd stop rest)
        (isOperator_lineEnd stop' rest') hstep
      simpa using hstop
    | _ => simp [firstKind] at hkind
  | branch keyword cond stop =>
    cases o' with
    | branch keyword' cond' stop' =>
      simp only [tokens, List.cons_append, List.append_assoc, List.nil_append, List.cons.injEq,
        Word.token_inj] at h
      obtain ⟨rfl, hcond⟩ := h
      obtain ⟨rfl, hstop⟩ := ExprTree.unique (isOperator_lineEnd stop rest)
        (isOperator_lineEnd stop' rest') hcond
      simpa using hstop
    | _ => simp [firstKind] at hkind
  | define marker name stop =>
    cases o' with
    | define marker' name' stop' => simpa [tokens, and_assoc] using h
    | _ => simp [firstKind] at hkind

/-! ## Programs -/

def Place.Stops : Place → List Token → Prop
  | .outside, rest => rest = []
  | .inside, rest => headKind rest = .endBlock

def LineTree.firstKind {place : Place} : LineTree place → TokenKind
  | .simple l => l.firstKind
  | .strayEnd _ => .endBlock
  | .block opening .. => opening.firstKind

theorem LineTree.headKind_tokens {place : Place} (l : LineTree place) (rest : List Token) :
    headKind (l.tokens ++ rest) = l.firstKind := by
  cases l <;> simp [LineTree.tokens, firstKind]

theorem LineTree.not_stops {place : Place} (l : LineTree place) (rest : List Token) :
    ¬place.Stops (l.tokens ++ rest) := by
  intro h
  have hkind := l.headKind_tokens rest
  cases place with
  | outside =>
    rw [show l.tokens ++ rest = [] from h] at hkind
    cases l with
    | simple l => cases l <;> cases hkind
    | strayEnd w => cases hkind
    | block opening body close stop => cases opening <;> cases hkind
  | inside =>
    rw [show headKind (l.tokens ++ rest) = .endBlock from h] at hkind
    cases l with
    | simple l => cases l <;> cases hkind
    | block opening body close stop => cases opening <;> cases hkind

mutual

theorem LineTree.unique {place : Place} (l l' : LineTree place) {rest rest' : List Token}
    (h : l.tokens ++ rest = l'.tokens ++ rest') : l = l' ∧ rest = rest' := by
  have hkind : l.firstKind = l'.firstKind := by
    rw [← l.headKind_tokens rest, h, l'.headKind_tokens]
  match l, l' with
  | .simple l, .simple l' =>
    simp only [LineTree.tokens] at h
    obtain ⟨rfl, hrest⟩ := SimpleLine.unique h
    exact ⟨rfl, hrest⟩
  | .strayEnd w, .strayEnd w' => simpa [LineTree.tokens] using h
  | .block opening body close stop, .block opening' body' close' stop' =>
    simp only [LineTree.tokens, List.append_assoc, List.cons_append, List.nil_append] at h
    obtain ⟨rfl, hbody⟩ := Opening.unique h
    have hstops (close : Word .endBlock) (rest : List Token) :
        Place.inside.Stops (close.token :: rest) := close.kind_token
    obtain ⟨rfl, hclose⟩ := LinesTree.unique body body' (hstops _ _) (hstops _ _) hbody
    simp only [List.cons.injEq, Word.token_inj] at hclose
    obtain ⟨rfl, rfl, hrest⟩ := hclose
    exact ⟨rfl, hrest⟩
  -- Lines of different forms start with words of different kinds.
  | .simple l, .strayEnd w => cases l <;> cases hkind
  | .simple l, .block opening body close stop => cases l <;> cases opening <;> cases hkind
  | .strayEnd w, .simple l => cases l <;> cases hkind
  | .strayEnd w, .block opening body close stop => cases opening <;> cases hkind
  | .block opening body close stop, .simple l => cases l <;> cases opening <;> cases hkind
  | .block opening body close stop, .strayEnd w => cases opening <;> cases hkind

theorem LinesTree.unique {place : Place} (ls ls' : LinesTree place) {rest rest' : List Token}
    (hrest : place.Stops rest) (hrest' : place.Stops rest')
    (h : ls.tokens ++ rest = ls'.tokens ++ rest') : ls = ls' ∧ rest = rest' := by
  match ls, ls' with
  | .nil, .nil => exact ⟨rfl, by simpa [LinesTree.tokens] using h⟩
  -- A line cannot stand where the lines stop.
  | .nil, .cons l ls' =>
    simp only [LinesTree.tokens, List.nil_append, List.append_assoc] at h
    rw [h] at hrest
    exact absurd hrest (l.not_stops _)
  | .cons l ls, .nil =>
    simp only [LinesTree.tokens, List.nil_append, List.append_assoc] at h
    rw [← h] at hrest'
    exact absurd hrest' (l.not_stops _)
  | .cons l ls, .cons l' ls' =>
    simp only [LinesTree.tokens, List.append_assoc] at h
    obtain ⟨rfl, htail⟩ := LineTree.unique l l' h
    obtain ⟨rfl, hend⟩ := LinesTree.unique ls ls' hrest hrest' htail
    exact ⟨rfl, hend⟩

end

/-- The tokens of a program have no second derivation. -/
theorem ProgramTree.eq_of_tokens {d d' : ProgramTree} (h : d.tokens = d'.tokens) : d = d' := by
  have hstops : Place.outside.Stops [] := rfl
  have hunique := LinesTree.unique d d' hstops hstops (by rw [h])
  exact hunique.1

end Grammar

end PiScript
