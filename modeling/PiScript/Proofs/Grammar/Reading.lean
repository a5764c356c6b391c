import PiScript.Proofs.Grammar.Tree

/-!
# Reading lines and the grammar

`readLine` against the grammar, in both directions. Reading the tokens of a line gives what the
line builds and stops right behind it; and whatever `readLine` reads, there is a line whose tokens
it took. Expressions are the only place where reading looks ahead: an operand that is followed by
an operator is never an expression of its own.
-/

namespace PiScript

namespace Grammar

open Parse

@[simp]
theorem headKind_cons (t : Token) (ts : List Token) : headKind (t :: ts) = t.kind :=
  rfl

/-! ## Reading what a tree derives -/

theorem lineEnd_word (w : Word .lineEnd) (rest : List Token) :
    lineEnd (w.token :: rest) = .ok rest := by
  simp [lineEnd]

theorem operand_word (w : Word .operand) (rest : List Token) :
    operand (w.token :: rest) = .ok (w.value, rest) := by
  simp [operand, operand?, Word.value]

theorem name_word (missing notText : Cause) (w : NameWord) (rest : List Token) :
    Parse.name missing notText (w.token :: rest) = .ok (w.name, rest) := by
  simp [Parse.name, operand?]

@[simp]
theorem ExprTree.headKind_tokens (e : ExprTree) (rest : List Token) :
    headKind (e.tokens ++ rest) = .operand := by
  cases e <;> simp [tokens]

theorem exprTail_of_not_operator (left : Value) {ts : List Token}
    (h : (headKind ts).isOperator = false) : exprTail left ts = .ok (.operand left, ts) := by
  unfold exprTail
  split
  · rename_i op hop
    rw [hop] at h
    cases h
  · rfl

theorem expr?_tree (e : ExprTree) {rest : List Token}
    (h : (headKind rest).isOperator = false) :
    expr? (e.tokens ++ rest) = .ok (some e.expr, rest) := by
  unfold expr?
  rw [e.headKind_tokens]
  cases e with
  | operand v =>
    show (operand (v.token :: rest) >>= _) = _
    rw [operand_word]
    show (exprTail v.value rest >>= _) = _
    rw [exprTail_of_not_operator _ h]
    rfl
  | binary left op right =>
    show (operand (left.token :: op.token :: right.token :: rest) >>= _) = _
    rw [operand_word]
    simp only [bind, Except.bind, exprTail, headKind_cons, op.kind_token, List.tail_cons,
      operand_word]
    rfl

theorem expr?_none {ts : List Token} (h : headKind ts = .lineEnd) :
    expr? ts = .ok (none, ts) := by
  unfold expr?
  rw [h]
  rfl

theorem expr?_option (e : Option ExprTree) (stop : Word .lineEnd) (rest : List Token) :
    expr? ((e.map ExprTree.tokens).getD [] ++ stop.token :: rest) =
      .ok (e.map ExprTree.expr, stop.token :: rest) := by
  have hstop : headKind (stop.token :: rest) = .lineEnd := stop.kind_token
  cases e with
  | none => exact expr?_none hstop
  | some e => exact expr?_tree e (by rw [hstop]; rfl)

/-- What reading a line gives that builds the statement `s`, or none. -/
def lineOf : Option Stmt → Line
  | none => .blank
  | some s => .statement s

theorem readLine_simple (l : SimpleLine) (rest : List Token) :
    readLine (l.tokens ++ rest) = .ok (lineOf l.statement?, rest) := by
  unfold readLine
  cases l with
  | empty stop => simp [SimpleLine.tokens, SimpleLine.statement?, lineOf]
  | stray w => simp [SimpleLine.tokens, SimpleLine.statement?, lineOf]
  | inclusion marker path stop =>
    simp only [SimpleLine.tokens, List.cons_append, List.nil_append, headKind_cons,
      marker.kind_token, List.tail_cons]
    simp only [inclusion, endStatement, name_word, lineEnd_word, bind, Except.bind]
    rfl
  | print e stop =>
    simp only [SimpleLine.tokens, List.append_assoc, e.headKind_tokens]
    have he : expr? (e.tokens ++ ([stop.token] ++ rest)) = .ok (some e.expr, stop.token :: rest) :=
      expr?_option (some e) stop rest
    simp only [print, endStatement, he, lineEnd_word, bind, Except.bind]
    rfl
  | declare keyword name separator init stop =>
    simp only [SimpleLine.tokens, List.cons_append, List.nil_append, List.append_assoc,
      headKind_cons, keyword.kind_token, List.tail_cons]
    simp only [declaration, endStatement, name_word, bind, Except.bind, headKind_cons,
      separator.kind_token, List.tail_cons, expr?_option, lineEnd_word]
    rfl
  | call keyword name stop =>
    simp only [SimpleLine.tokens, List.cons_append, List.nil_append, headKind_cons,
      keyword.kind_token, List.tail_cons]
    simp only [call, endStatement, name_word, lineEnd_word, bind, Except.bind]
    rfl

theorem readLine_opening (o : Opening) (rest : List Token) :
    readLine (o.tokens ++ rest) = .ok (.opening o.head, rest) := by
  unfold readLine
  cases o with
  | forEach keyword source item stop =>
    simp only [Opening.tokens, List.cons_append, List.nil_append, headKind_cons,
      keyword.kind_token, List.tail_cons]
    simp only [forEach, endOpening, name_word, lineEnd_word, bind, Except.bind]
    rfl
  | loop keyword cond step stop =>
    simp only [Opening.tokens, List.cons_append, List.append_assoc, List.nil_append, headKind_cons,
      keyword.kind_token, List.tail_cons]
    -- The step starts with an operand, so the condition ends in front of it.
    have hcond : expr? (cond.tokens ++ (step.tokens ++ stop.token :: rest)) =
        .ok (some cond.expr, step.tokens ++ stop.token :: rest) :=
      expr?_tree cond (by rw [step.headKind_tokens]; rfl)
    have hstep : expr? (step.tokens ++ stop.token :: rest) =
        .ok (some step.expr, stop.token :: rest) := expr?_option (some step) stop rest
    simp only [loop, endOpening, hcond, hstep, lineEnd_word, bind, Except.bind]
    rfl
  | branch keyword cond stop =>
    simp only [Opening.tokens, List.cons_append, List.append_assoc, List.nil_append, headKind_cons,
      keyword.kind_token, List.tail_cons]
    have hcond : expr? (cond.tokens ++ stop.token :: rest) =
        .ok (some cond.expr, stop.token :: rest) := expr?_option (some cond) stop rest
    simp only [branch, endOpening, hcond, lineEnd_word, bind, Except.bind]
    rfl
  | define marker name stop =>
    simp only [Opening.tokens, List.cons_append, List.nil_append, headKind_cons,
      marker.kind_token, List.tail_cons]
    simp only [definition, endOpening, name_word, lineEnd_word, bind, Except.bind]
    rfl

/-! ## A tree for what was read -/

theorem exists_word {ts : List Token} {k : TokenKind} (h : headKind ts = k) (hk : k ≠ .eof) :
    ∃ w : Word k, ts = w.token :: ts.tail := by
  cases ts with
  | nil => exact absurd h.symm hk
  | cons t ts => exact ⟨⟨t, h⟩, rfl⟩

theorem exists_of_lineEnd {ts rest : List Token} (h : lineEnd ts = .ok rest) :
    ∃ w : Word .lineEnd, ts = w.token :: rest := by
  obtain ⟨t, hkind, hts⟩ := lineEnd_eq_ok h
  exact ⟨⟨t, hkind⟩, hts⟩

theorem exists_of_operand? {ts rest : List Token} {v : Value}
    (h : operand? ts = some (v, rest)) :
    ∃ w : Word .operand, ts = w.token :: rest ∧ w.value = v := by
  cases ts with
  | nil => cases h
  | cons t ts =>
    by_cases hkind : t.kind = .operand
    · simp only [operand?, if_pos hkind] at h
      cases h
      exact ⟨⟨t, hkind⟩, rfl, rfl⟩
    · simp only [operand?, if_neg hkind] at h
      cases h

theorem exists_of_operand {ts rest : List Token} {v : Value} (h : operand ts = .ok (v, rest)) :
    ∃ w : Word .operand, ts = w.token :: rest ∧ w.value = v := by
  unfold operand at h
  split at h
  · rename_i read hread
    cases h
    exact exists_of_operand? hread
  · cases h

theorem exists_of_name {missing notText : Cause} {ts rest : List Token} {s : String}
    (h : Parse.name missing notText ts = .ok (s, rest)) :
    ∃ w : NameWord, ts = w.token :: rest ∧ w.name = s := by
  unfold Parse.name at h
  split at h
  · rename_i text rest' hread
    cases h
    obtain ⟨w, hts, hvalue⟩ := exists_of_operand? hread
    exact ⟨⟨w.token, s, w.kind_token, hvalue⟩, hts, rfl⟩
  · cases h
  · cases h

theorem exists_of_exprTail {left : Word .operand} {ts rest : List Token} {e : Expr}
    (h : exprTail left.value ts = .ok (e, rest)) :
    ∃ t : ExprTree, left.token :: ts = t.tokens ++ rest ∧ t.expr = e := by
  unfold exprTail at h
  split at h
  · rename_i op hop
    obtain ⟨⟨right, rest'⟩, hright, heq⟩ := exists_of_bind_eq_ok h
    cases heq
    obtain ⟨sign, hts⟩ := exists_word hop (by simp)
    obtain ⟨w, htail, rfl⟩ := exists_of_operand hright
    refine ⟨.binary left ⟨sign.token, op, sign.kind_token⟩ w, ?_, rfl⟩
    rw [hts, htail]
    rfl
  · cases h
    exact ⟨.operand left, rfl, rfl⟩

/-- Whatever `expr?` reads is the optional expression of the grammar. -/
theorem exists_of_expr? {ts rest : List Token} {e : Option Expr} (h : expr? ts = .ok (e, rest)) :
    ∃ t : Option ExprTree,
      ts = (t.map ExprTree.tokens).getD [] ++ rest ∧ t.map ExprTree.expr = e := by
  unfold expr? at h
  split at h
  -- At the end of the line or of the file there is no expression.
  · cases h
    exact ⟨none, rfl, rfl⟩
  · cases h
    exact ⟨none, rfl, rfl⟩
  · obtain ⟨⟨left, behind⟩, hleft, h⟩ := exists_of_bind_eq_ok h
    obtain ⟨⟨e', rest'⟩, htail, heq⟩ := exists_of_bind_eq_ok h
    cases heq
    obtain ⟨w, rfl, rfl⟩ := exists_of_operand hleft
    obtain ⟨t, hts, rfl⟩ := exists_of_exprTail htail
    exact ⟨some t, hts, rfl⟩

/-- `expr?` gives an expression: the tree cannot be absent. -/
theorem exists_of_expr?_some {ts rest : List Token} {e : Expr}
    (h : expr? ts = .ok (some e, rest)) :
    ∃ t : ExprTree, ts = t.tokens ++ rest ∧ t.expr = e := by
  obtain ⟨t, hts, he⟩ := exists_of_expr? h
  cases t with
  | none => cases he
  | some t => exact ⟨t, hts, Option.some.inj he⟩

theorem exists_of_endStatement {s : Stmt} {ts rest : List Token} {line : Line}
    (h : endStatement s ts = .ok (line, rest)) :
    ∃ stop : Word .lineEnd, ts = stop.token :: rest ∧ line = .statement s := by
  obtain ⟨rest', hend, heq⟩ := exists_of_bind_eq_ok h
  cases heq
  obtain ⟨stop, hts⟩ := exists_of_lineEnd hend
  exact ⟨stop, hts, rfl⟩

theorem exists_of_endOpening {head : BlockHead} {ts rest : List Token} {line : Line}
    (h : endOpening head ts = .ok (line, rest)) :
    ∃ stop : Word .lineEnd, ts = stop.token :: rest ∧ line = .opening head := by
  obtain ⟨rest', hend, heq⟩ := exists_of_bind_eq_ok h
  cases heq
  obtain ⟨stop, hts⟩ := exists_of_lineEnd hend
  exact ⟨stop, hts, rfl⟩

/-! ## The three kinds of lines -/

/-- The tokens of `ts` up to `rest` are a simple line that reads as `line`. -/
def IsSimple (ts rest : List Token) (line : Line) : Prop :=
  ∃ l : SimpleLine, ts = l.tokens ++ rest ∧ line = lineOf l.statement?

def IsOpening (ts rest : List Token) (line : Line) : Prop :=
  ∃ o : Opening, ts = o.tokens ++ rest ∧ line = .opening o.head

def IsStrayEnd (ts rest : List Token) (line : Line) : Prop :=
  ∃ w : Word .endBlock, ts = w.token :: rest ∧ line = .blank

theorem isSimple_of_inclusion (marker : Word .dashes) {ts rest : List Token} {line : Line}
    (h : inclusion ts = .ok (line, rest)) : IsSimple (marker.token :: ts) rest line := by
  obtain ⟨⟨path, behind⟩, hname, h⟩ := exists_of_bind_eq_ok h
  obtain ⟨w, rfl, rfl⟩ := exists_of_name hname
  obtain ⟨stop, rfl, rfl⟩ := exists_of_endStatement h
  exact ⟨.inclusion marker w stop, rfl, rfl⟩

theorem isSimple_of_print {ts rest : List Token} {line : Line} (hkind : headKind ts = .operand)
    (h : print ts = .ok (line, rest)) : IsSimple ts rest line := by
  obtain ⟨⟨e, behind⟩, hexpr, h⟩ := exists_of_bind_eq_ok h
  obtain ⟨stop, rfl, rfl⟩ := exists_of_endStatement h
  obtain ⟨t, rfl, rfl⟩ := exists_of_expr? hexpr
  cases t with
  | none =>
    -- Then the line starts with its end, not with an operand.
    rw [show headKind _ = stop.token.kind from rfl, stop.kind_token] at hkind
    cases hkind
  | some t => exact ⟨.print t stop, by simp [SimpleLine.tokens], rfl⟩

theorem isSimple_of_declaration (keyword : Word .declare) {ts rest : List Token} {line : Line}
    (h : declaration ts = .ok (line, rest)) : IsSimple (keyword.token :: ts) rest line := by
  obtain ⟨⟨x, behind⟩, hname, h⟩ := exists_of_bind_eq_ok h
  obtain ⟨w, rfl, rfl⟩ := exists_of_name hname
  simp only at h
  split at h
  · rename_i hsep
    obtain ⟨separator, hbehind⟩ := exists_word hsep (by simp)
    obtain ⟨⟨init, behind'⟩, hexpr, h⟩ := exists_of_bind_eq_ok h
    obtain ⟨t, htail, rfl⟩ := exists_of_expr? hexpr
    obtain ⟨stop, rfl, rfl⟩ := exists_of_endStatement h
    refine ⟨.declare keyword w separator t stop, ?_, rfl⟩
    rw [hbehind, htail]
    simp [SimpleLine.tokens]
  · cases h

theorem isSimple_of_call (keyword : Word .call) {ts rest : List Token} {line : Line}
    (h : call ts = .ok (line, rest)) : IsSimple (keyword.token :: ts) rest line := by
  obtain ⟨⟨f, behind⟩, hname, h⟩ := exists_of_bind_eq_ok h
  obtain ⟨w, rfl, rfl⟩ := exists_of_name hname
  obtain ⟨stop, rfl, rfl⟩ := exists_of_endStatement h
  exact ⟨.call keyword w stop, rfl, rfl⟩

theorem isOpening_of_forEach (keyword : Word .forEach) {ts rest : List Token} {line : Line}
    (h : forEach ts = .ok (line, rest)) : IsOpening (keyword.token :: ts) rest line := by
  obtain ⟨⟨source, behind⟩, hsource, h⟩ := exists_of_bind_eq_ok h
  obtain ⟨⟨item, behind'⟩, hitem, h⟩ := exists_of_bind_eq_ok h
  obtain ⟨w, rfl, rfl⟩ := exists_of_name hsource
  obtain ⟨w', rfl, rfl⟩ := exists_of_name hitem
  obtain ⟨stop, rfl, rfl⟩ := exists_of_endOpening h
  exact ⟨.forEach keyword w w' stop, rfl, rfl⟩

theorem isOpening_of_loop (keyword : Word .loop) {ts rest : List Token} {line : Line}
    (h : loop ts = .ok (line, rest)) : IsOpening (keyword.token :: ts) rest line := by
  obtain ⟨⟨cond, behind⟩, hcond, h⟩ := exists_of_bind_eq_ok h
  obtain ⟨⟨step, behind'⟩, hstep, h⟩ := exists_of_bind_eq_ok h
  simp only at h
  split at h
  · obtain ⟨c, rfl, rfl⟩ := exists_of_expr?_some hcond
    obtain ⟨s, rfl, rfl⟩ := exists_of_expr?_some hstep
    obtain ⟨stop, rfl, rfl⟩ := exists_of_endOpening h
    exact ⟨.loop keyword c s stop, by simp [Opening.tokens], rfl⟩
  · cases h

theorem isOpening_of_branch (keyword : Word .branch) {ts rest : List Token} {line : Line}
    (h : branch ts = .ok (line, rest)) : IsOpening (keyword.token :: ts) rest line := by
  obtain ⟨⟨cond, behind⟩, hcond, h⟩ := exists_of_bind_eq_ok h
  simp only at h
  split at h
  · obtain ⟨c, rfl, rfl⟩ := exists_of_expr?_some hcond
    obtain ⟨stop, rfl, rfl⟩ := exists_of_endOpening h
    exact ⟨.branch keyword c stop, by simp [Opening.tokens], rfl⟩
  · cases h

theorem isOpening_of_definition (marker : Word .stars) {ts rest : List Token} {line : Line}
    (h : definition ts = .ok (line, rest)) : IsOpening (marker.token :: ts) rest line := by
  obtain ⟨⟨f, behind⟩, hname, h⟩ := exists_of_bind_eq_ok h
  obtain ⟨w, rfl, rfl⟩ := exists_of_name hname
  obtain ⟨stop, rfl, rfl⟩ := exists_of_endOpening h
  exact ⟨.define marker w stop, rfl, rfl⟩

/-- Everything that `readLine` can read in front of the end of a program. -/
theorem readLine_cases {ts rest : List Token} {line : Line} (heof : headKind ts ≠ .eof)
    (hmal : headKind ts ≠ .malformed) (h : readLine ts = .ok (line, rest)) :
    IsSimple ts rest line ∨ IsOpening ts rest line ∨ IsStrayEnd ts rest line := by
  cases ts with
  | nil => exact absurd rfl heof
  | cons t tail =>
    unfold readLine at h
    -- One goal for each kind of first token, in the order in which `readLine` asks for them.
    split at h
    · exact absurd ‹_› heof
    · exact .inl (isSimple_of_inclusion ⟨t, ‹_›⟩ h)
    · exact .inl (isSimple_of_print ‹_› h)
    · exact .inl (isSimple_of_declaration ⟨t, ‹_›⟩ h)
    · exact .inr (.inl (isOpening_of_forEach ⟨t, ‹_›⟩ h))
    · exact .inr (.inl (isOpening_of_loop ⟨t, ‹_›⟩ h))
    · exact .inr (.inl (isOpening_of_branch ⟨t, ‹_›⟩ h))
    · exact .inr (.inl (isOpening_of_definition ⟨t, ‹_›⟩ h))
    · exact .inl (isSimple_of_call ⟨t, ‹_›⟩ h)
    · cases h
      exact .inl ⟨.empty ⟨t, ‹_›⟩, rfl, rfl⟩
    · cases h
      exact .inr (.inr ⟨⟨t, ‹_›⟩, rfl, rfl⟩)
    · cases h
      exact .inl ⟨.stray ⟨t, _, ‹_›⟩, rfl, rfl⟩
    · exact absurd ‹_› hmal

end Grammar

end PiScript
