import PiScript.Proofs.Grammar.Exactness

/-!
# What the parser depends on

The parser looks at the kinds of tokens and at the texts of operands, and at nothing behind the
first end of file. So it treats two token lists alike that agree up to there in kinds and texts: it
succeeds on both with the same program, or fails on both with the same cause and in front of tokens
that agree again.

Agreement is relative to a relation `R` of single tokens. Equality gives that tokens behind the end
of file have no influence, and any relation that ignores positions gives that positions have none.
-/

namespace PiScript

namespace Parse

/-- The lists are related token by token up to and including an end of file. -/
inductive Agree (R : Token → Token → Prop) : List Token → List Token → Prop where
  | ended {t u : Token} (ts us : List Token) (h : R t u) (heof : t.kind = .eof) :
      Agree R (t :: ts) (u :: us)
  | cons {t u : Token} {ts us : List Token} (h : R t u) (rest : Agree R ts us) :
      Agree R (t :: ts) (u :: us)

/-- Both succeed with related results, or both fail with one cause in front of tokens that agree. -/
inductive Matches (R : Token → Token → Prop) {α : Type} (Q : α → α → Prop) :
    Except Failure α → Except Failure α → Prop where
  | ok {a b : α} (h : Q a b) : Matches R Q (.ok a) (.ok b)
  | error (cause : Cause) {ts us : List Token} (h : Agree R ts us) :
      Matches R Q (.error ⟨cause, ts⟩) (.error ⟨cause, us⟩)

def Beside (R : Token → Token → Prop) {α : Type} (x y : α × List Token) : Prop :=
  x.1 = y.1 ∧ Agree R x.2 y.2

def SameSpelling (t u : Token) : Prop :=
  t.kind = u.kind ∧ t.text = u.text

theorem Matches.bind {R : Token → Token → Prop} {α β : Type} {Q : α → α → Prop} {P : β → β → Prop}
    {x y : Except Failure α} {f g : α → Except Failure β} (h : Matches R Q x y)
    (hf : ∀ a b, Q a b → Matches R P (f a) (g b)) : Matches R P (x >>= f) (y >>= g) := by
  cases h with
  | ok h => exact hf _ _ h
  | error cause h => exact .error cause h

section

variable {R : Token → Token → Prop} (hR : ∀ t u, R t u → SameSpelling t u)
include hR

/-! ## Pieces of a line -/

theorem Agree.headKind_eq {ts us : List Token} (h : Agree R ts us) :
    headKind ts = headKind us := by
  cases h with
  | ended ts us h heof => exact (hR _ _ h).1
  | cons h rest => exact (hR _ _ h).1

omit hR in
theorem Agree.tail {ts us : List Token} (h : Agree R ts us) (hne : headKind ts ≠ .eof) :
    Agree R ts.tail us.tail := by
  cases h with
  | ended ts us h heof => exact absurd heof hne
  | cons h rest => exact rest

theorem lineEnd_matches {ts us : List Token} (h : Agree R ts us) :
    Matches R (Agree R) (lineEnd ts) (lineEnd us) := by
  have hkind := h.headKind_eq hR
  unfold lineEnd
  by_cases hend : headKind ts = .lineEnd
  · rw [if_pos hend, if_pos (hkind ▸ hend)]
    exact .ok (h.tail (by rw [hend]; simp))
  · rw [if_neg hend, if_neg (hkind ▸ hend), hkind]
    exact .error _ h

/-- Both lists start with one operand, or neither does with any. -/
theorem operand?_agree {ts us : List Token} (h : Agree R ts us) :
    (operand? ts = none ∧ operand? us = none) ∨
    ∃ v ts' us', operand? ts = some (v, ts') ∧ operand? us = some (v, us') ∧ Agree R ts' us' := by
  cases h with
  | ended ts us h heof =>
    have hsame := hR _ _ h
    left
    simp [operand?, ← hsame.1, heof]
  | @cons t u ts us h rest =>
    have hsame := hR _ _ h
    by_cases hop : t.kind = .operand
    · right
      refine ⟨Value.ofLiteral t.text, ts, us, ?_, ?_, rest⟩
      · simp [operand?, hop]
      · simp [operand?, ← hsame.1, ← hsame.2, hop]
    · left
      simp [operand?, ← hsame.1, hop]

theorem operand_matches {ts us : List Token} (h : Agree R ts us) :
    Matches R (Beside R) (operand ts) (operand us) := by
  unfold operand
  rcases operand?_agree hR h with ⟨ht, hu⟩ | ⟨v, ts', us', ht, hu, hrest⟩
  · rw [ht, hu, h.headKind_eq hR]
    exact .error _ h
  · rw [ht, hu]
    exact .ok ⟨rfl, hrest⟩

theorem name_matches {ts us : List Token} (missing notText : Cause) (h : Agree R ts us) :
    Matches R (Beside R) (name missing notText ts) (name missing notText us) := by
  unfold name
  rcases operand?_agree hR h with ⟨ht, hu⟩ | ⟨v, ts', us', ht, hu, hrest⟩
  · rw [ht, hu]
    exact .error _ h
  · rw [ht, hu]
    cases v with
    | text s => exact .ok ⟨rfl, hrest⟩
    | _ => exact .error _ h

theorem exprTail_matches {ts us : List Token} (left : Value) (h : Agree R ts us) :
    Matches R (Beside R) (exprTail left ts) (exprTail left us) := by
  unfold exprTail
  rw [← h.headKind_eq hR]
  split
  · rename_i op hop
    have htail : Agree R ts.tail us.tail := h.tail (by rw [hop]; simp)
    refine (operand_matches hR htail).bind ?_
    rintro ⟨right, ts'⟩ ⟨_, us'⟩ ⟨rfl, hrest⟩
    exact .ok ⟨rfl, hrest⟩
  · exact .ok ⟨rfl, h⟩

theorem expr?_matches {ts us : List Token} (h : Agree R ts us) :
    Matches R (Beside R) (expr? ts) (expr? us) := by
  unfold expr?
  rw [← h.headKind_eq hR]
  split
  · exact .ok ⟨rfl, h⟩
  · exact .ok ⟨rfl, h⟩
  · refine (operand_matches hR h).bind ?_
    rintro ⟨left, ts'⟩ ⟨_, us'⟩ ⟨rfl, hrest⟩
    refine (exprTail_matches hR left hrest).bind ?_
    rintro ⟨e, ts''⟩ ⟨_, us''⟩ ⟨rfl, hrest'⟩
    exact .ok ⟨rfl, hrest'⟩

/-! ## Logical lines -/

theorem endStatement_matches {ts us : List Token} (s : Stmt) (h : Agree R ts us) :
    Matches R (Beside R) (endStatement s ts) (endStatement s us) :=
  (lineEnd_matches hR h).bind fun _ _ hrest => .ok ⟨rfl, hrest⟩

theorem endOpening_matches {ts us : List Token} (head : BlockHead) (h : Agree R ts us) :
    Matches R (Beside R) (endOpening head ts) (endOpening head us) :=
  (lineEnd_matches hR h).bind fun _ _ hrest => .ok ⟨rfl, hrest⟩

theorem inclusion_matches {ts us : List Token} (h : Agree R ts us) :
    Matches R (Beside R) (inclusion ts) (inclusion us) := by
  refine (name_matches hR _ _ h).bind ?_
  rintro ⟨path, ts'⟩ ⟨_, us'⟩ ⟨rfl, hrest⟩
  exact endStatement_matches hR _ hrest

theorem print_matches {ts us : List Token} (h : Agree R ts us) :
    Matches R (Beside R) (print ts) (print us) := by
  refine (expr?_matches hR h).bind ?_
  rintro ⟨e, ts'⟩ ⟨_, us'⟩ ⟨rfl, hrest⟩
  exact endStatement_matches hR _ hrest

theorem declaration_matches {ts us : List Token} (h : Agree R ts us) :
    Matches R (Beside R) (declaration ts) (declaration us) := by
  refine (name_matches hR _ _ h).bind ?_
  rintro ⟨x, ts'⟩ ⟨_, us'⟩ ⟨rfl, hrest⟩
  have hkind : headKind ts' = headKind us' := hrest.headKind_eq hR
  show Matches R (Beside R) (if headKind ts' = .declare then _ else throw _)
    (if headKind us' = .declare then _ else throw _)
  by_cases hsep : headKind ts' = .declare
  · rw [if_pos hsep, if_pos (hkind ▸ hsep)]
    have htail : Agree R ts'.tail us'.tail := hrest.tail (by rw [hsep]; simp)
    refine (expr?_matches hR htail).bind ?_
    rintro ⟨init, ts''⟩ ⟨_, us''⟩ ⟨rfl, hrest'⟩
    exact endStatement_matches hR _ hrest'
  · rw [if_neg hsep, if_neg (hkind ▸ hsep)]
    exact .error _ hrest

theorem call_matches {ts us : List Token} (h : Agree R ts us) :
    Matches R (Beside R) (call ts) (call us) := by
  refine (name_matches hR _ _ h).bind ?_
  rintro ⟨f, ts'⟩ ⟨_, us'⟩ ⟨rfl, hrest⟩
  exact endStatement_matches hR _ hrest

theorem forEach_matches {ts us : List Token} (h : Agree R ts us) :
    Matches R (Beside R) (forEach ts) (forEach us) := by
  refine (name_matches hR _ _ h).bind ?_
  rintro ⟨source, ts'⟩ ⟨_, us'⟩ ⟨rfl, hrest⟩
  refine (name_matches hR _ _ hrest).bind ?_
  rintro ⟨item, ts''⟩ ⟨_, us''⟩ ⟨rfl, hrest'⟩
  exact endOpening_matches hR _ hrest'

theorem loop_matches {ts us : List Token} (h : Agree R ts us) :
    Matches R (Beside R) (loop ts) (loop us) := by
  refine (expr?_matches hR h).bind ?_
  rintro ⟨cond, ts'⟩ ⟨_, us'⟩ ⟨rfl, hrest⟩
  refine (expr?_matches hR hrest).bind ?_
  rintro ⟨step, ts''⟩ ⟨_, us''⟩ ⟨rfl, hrest'⟩
  cases cond with
  | none => exact .error _ hrest'
  | some cond =>
    cases step with
    | none => exact .error _ hrest'
    | some step => exact endOpening_matches hR _ hrest'

theorem branch_matches {ts us : List Token} (h : Agree R ts us) :
    Matches R (Beside R) (branch ts) (branch us) := by
  refine (expr?_matches hR h).bind ?_
  rintro ⟨cond, ts'⟩ ⟨_, us'⟩ ⟨rfl, hrest⟩
  cases cond with
  | none => exact .error _ hrest
  | some cond => exact endOpening_matches hR _ hrest

theorem definition_matches {ts us : List Token} (h : Agree R ts us) :
    Matches R (Beside R) (definition ts) (definition us) := by
  refine (name_matches hR _ _ h).bind ?_
  rintro ⟨f, ts'⟩ ⟨_, us'⟩ ⟨rfl, hrest⟩
  exact endOpening_matches hR _ hrest

theorem readLine_matches {ts us : List Token} (h : Agree R ts us) :
    Matches R (Beside R) (readLine ts) (readLine us) := by
  have hkind := h.headKind_eq hR
  by_cases heof : headKind ts = .eof
  · unfold readLine
    rw [← hkind, heof]
    exact .ok ⟨rfl, h⟩
  · have htail := h.tail heof
    unfold readLine
    rw [← hkind]
    split
    · exact absurd ‹_› heof
    · exact inclusion_matches hR htail
    · exact print_matches hR h
    · exact declaration_matches hR htail
    · exact forEach_matches hR htail
    · exact loop_matches hR htail
    · exact branch_matches hR htail
    · exact definition_matches hR htail
    · exact call_matches hR htail
    all_goals exact .ok ⟨rfl, htail⟩

/-! ## Whole programs -/

theorem assemble_matches {ts us : List Token} (h : Agree R ts us) (blocks : List OpenBlock)
    (read : List Stmt) :
    Matches R Eq (assemble blocks read ts) (assemble blocks read us) := by
  -- The induction is on the number of tokens: every step takes at least one.
  induction hn : ts.length using Nat.strongRecOn generalizing blocks read ts us with
  | ind n ih =>
    subst hn
    have hhead := h.headKind_eq hR
    by_cases heof : headKind ts = .eof
    · rw [Grammar.assemble_eof_eq heof, Grammar.assemble_eof_eq (hhead ▸ heof)]
      split
      · exact .ok rfl
      · exact .error _ h
    -- The kinds of the first tokens decide the step, so it is the same one on both sides.
    · rcases Grammar.closes_or_not ts blocks with ⟨hkind, block, outer, rfl⟩ | hkind
      · rw [Grammar.assemble_close_eq hkind, Grammar.assemble_close_eq (hhead ▸ hkind)]
        have htail := lineEnd_matches hR (h.tail heof)
        have hlt := length_tail_lt heof
        generalize hx : lineEnd ts.tail = x at htail
        generalize lineEnd us.tail = y at htail
        cases htail with
        | error cause hrest => exact .error cause hrest
        | @ok ts' us' hrest =>
          obtain ⟨t, -, hts⟩ := lineEnd_eq_ok hx
          rw [hts, List.length_cons] at hlt
          exact ih _ (by omega) hrest _ _ rfl
      · rw [Grammar.assemble_line_eq heof hkind,
          Grammar.assemble_line_eq (hhead ▸ heof) (hhead ▸ hkind)]
        have hline := readLine_matches hR h
        generalize hx : readLine ts = x at hline
        generalize readLine us = y at hline
        cases hline with
        | error cause hrest => exact .error cause hrest
        | @ok a b hrest =>
          obtain ⟨line, ts'⟩ := a
          obtain ⟨_, us'⟩ := b
          obtain ⟨rfl, hrest⟩ := hrest
          have hlt := length_readLine_lt heof hx
          cases line with
          | blank => exact ih _ hlt hrest _ _ rfl
          | statement s => exact ih _ hlt hrest _ _ rfl
          | opening head => exact ih _ hlt hrest _ _ rfl

end

end Parse

end PiScript
