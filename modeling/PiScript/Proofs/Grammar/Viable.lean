import PiScript.Proofs.Grammar.Exactness

/-!
# Readers that blame the right token

A reader is viable if it fails in front of the first token that cannot be continued: what it took
before can be finished, and with that token next it fails whatever comes behind. The readers of
all lines are viable, because they are put together from readers of single tokens, which are, and
because reading one piece after the other keeps the property.

An expression ends in front of anything but an operator, so what finishes a line may only be chosen
freely where no operator comes next.
-/

namespace PiScript

namespace Grammar

open Parse

/-- Takes tokens from the front of a list and returns what they read as and the tokens behind. -/
abbrev Reader (α : Type) := List Token → Except Failure (α × List Token)

def NoOperator (ts : List Token) : Prop :=
  (headKind ts).isOperator = false

section

variable {β γ : Type} (P : List Token → Prop) (out : β → List Token → γ)
  (r : List Token → Except Failure γ)

/-- Some tokens can be read: in front of any `post` with `P` they give `out b post`. -/
def Finishes : Prop :=
  ∃ us b, Proper us ∧ ∀ post, P post → NoOperator (us ++ post) ∧ r (us ++ post) = .ok (out b post)

/-- If reading `ts` fails, then at the first token that cannot be continued: what stands before it
can be finished, and every list that goes on with it fails there. -/
def Blames (ts : List Token) : Prop :=
  ∀ f, r ts = .error f → f.cause.kind = .grammar ∧ ∃ front, ts = front ++ f.rest ∧
    (∀ us, us.head? = f.rest.head? → r (front ++ us) = .error ⟨f.cause, us⟩) ∧
    ∃ us b, Proper us ∧ ∀ post, P post → r (front ++ (us ++ post)) = .ok (out b post)

end

/-- The reader can succeed, and where it fails it blames the first token that cannot be continued. -/
structure Viable {α : Type} (r : Reader α) : Prop where
  finishes : Finishes NoOperator Prod.mk r
  /-- Reading looks no further than the next token, and there only for an operator. -/
  reads : ∀ {ts rest : List Token} {a : α}, r ts = .ok (a, rest) →
    ∃ front, ts = front ++ rest ∧
      ∀ us, us.head? = rest.head? ∨ NoOperator us → r (front ++ us) = .ok (a, us)
  blames : ∀ ts, Blames NoOperator Prod.mk r ts

/-! ## Readers in sequence -/

def andThen {α β : Type} (r : Reader α) (k : α → List Token → Except Failure β) (ts : List Token) :
    Except Failure β :=
  r ts >>= fun x => k x.1 x.2

section AndThen

variable {α β : Type} {r : Reader α} {k : α → List Token → Except Failure β}

theorem andThen_ok {ts rest : List Token} {a : α} (h : r ts = .ok (a, rest)) :
    andThen r k ts = k a rest := by
  rw [andThen, h]
  rfl

theorem andThen_error {ts : List Token} {f : Failure} (h : r ts = .error f) :
    andThen r k ts = .error f := by
  rw [andThen, h]
  rfl

theorem andThen_eq_ok {ts : List Token} {b : β} (h : andThen r k ts = .ok b) :
    ∃ a mid, r ts = .ok (a, mid) ∧ k a mid = .ok b := by
  obtain ⟨⟨a, mid⟩, hr, hk⟩ := exists_of_bind_eq_ok h
  exact ⟨a, mid, hr, hk⟩

theorem andThen_eq_error {ts : List Token} {f : Failure} (h : andThen r k ts = .error f) :
    r ts = .error f ∨ ∃ a mid, r ts = .ok (a, mid) ∧ k a mid = .error f := by
  cases hr : r ts with
  | error g =>
    rw [andThen_error hr] at h
    cases h
    exact .inl rfl
  | ok x =>
    obtain ⟨a, mid⟩ := x
    rw [andThen_ok hr] at h
    exact .inr ⟨a, mid, rfl, h⟩

end AndThen

theorem head?_append_eq {us rest : List Token} (front : List Token) (h : us.head? = rest.head?) :
    (front ++ us).head? = (front ++ rest).head? := by
  rw [List.head?_append, List.head?_append, h]

section Sequence

variable {α β γ : Type} {P : List Token → Prop} {out : β → List Token → γ} {r : Reader α}
  {k : α → List Token → Except Failure γ} (hr : Viable r) (hfinish : ∀ a, Finishes P out (k a))

include hr hfinish

theorem Viable.finishes_andThen : Finishes P out (andThen r k) := by
  obtain ⟨us, a, hus, hread⟩ := hr.finishes
  obtain ⟨vs, b, hvs, hread'⟩ := hfinish a
  refine ⟨us ++ vs, b, (proper_append us vs).mpr ⟨hus, hvs⟩, ?_⟩
  intro post hpost
  have hsecond := hread' post hpost
  have hfirst := hread (vs ++ post) hsecond.1
  rw [List.append_assoc, andThen_ok hfirst.2]
  exact ⟨hfirst.1, hsecond.2⟩

theorem Viable.blames_andThen {ts : List Token}
    (hk : ∀ a rest, r ts = .ok (a, rest) → Blames P out (k a) rest) :
    Blames P out (andThen r k) ts := by
  intro f h
  obtain hfirst | ⟨a, mid, hfirst, hsecond⟩ := andThen_eq_error h
  -- The first reader fails: it is finished, and then the second is from its start.
  · obtain ⟨hkind, front, hts, hsame, us, a, hus, hread⟩ := hr.blames ts f hfirst
    obtain ⟨vs, b, hvs, hread'⟩ := hfinish a
    refine ⟨hkind, front, hts, fun us hus => andThen_error (hsame us hus), us ++ vs, b,
      (proper_append us vs).mpr ⟨hus, hvs⟩, ?_⟩
    intro post hpost
    have hsecond := hread' post hpost
    rw [List.append_assoc, andThen_ok (hread _ hsecond.1), hsecond.2]
  · obtain ⟨hkind, front', rfl, hsame, us, b, hus, hread'⟩ := hk a mid hfirst f hsecond
    obtain ⟨front, rfl, hread⟩ := hr.reads hfirst
    refine ⟨hkind, front ++ front', (List.append_assoc ..).symm, ?_, ?_⟩
    · intro us hus
      rw [List.append_assoc, andThen_ok (hread _ (.inl (head?_append_eq front' hus))), hsame us hus]
    -- If the second reader took nothing, the first has to end in front of what finishes it.
    · cases front' with
      | nil =>
        obtain ⟨vs, b, hvs, hread'⟩ := hfinish a
        refine ⟨vs, b, hvs, ?_⟩
        intro post hpost
        have hsecond := hread' post hpost
        rw [List.append_nil, andThen_ok (hread _ (.inr hsecond.1)), hsecond.2]
      | cons t front' =>
        refine ⟨us, b, hus, ?_⟩
        intro post hpost
        have hnext : (t :: front' ++ (us ++ post)).head? = (t :: front' ++ f.rest).head? := rfl
        rw [List.append_assoc, andThen_ok (hread _ (.inl hnext)), hread' post hpost]

end Sequence

theorem Viable.andThen {α β : Type} {r : Reader α} {k : α → Reader β} (hr : Viable r)
    (hk : ∀ a, Viable (k a)) : Viable (andThen r k) where
  finishes := hr.finishes_andThen fun a => (hk a).finishes
  reads := by
    intro ts rest b h
    obtain ⟨a, mid, hfirst, hsecond⟩ := andThen_eq_ok h
    obtain ⟨front, rfl, hread⟩ := hr.reads hfirst
    obtain ⟨front', rfl, hread'⟩ := (hk a).reads hsecond
    refine ⟨front ++ front', (List.append_assoc ..).symm, ?_⟩
    intro us hus
    have hnext : (front' ++ us).head? = (front' ++ rest).head? ∨ NoOperator (front' ++ us) := by
      cases front' with
      | nil => exact hus
      | cons t front' => exact .inl rfl
    rw [List.append_assoc, andThen_ok (hread _ hnext), hread' us hus]
  blames ts := hr.blames_andThen (fun a => (hk a).finishes) fun a rest _ => (hk a).blames rest

theorem viable_pure {α : Type} (a : α) : Viable fun ts => .ok (a, ts) where
  finishes := ⟨[], a, proper_nil, fun _ hpost => ⟨hpost, rfl⟩⟩
  reads := by
    intro ts rest b h
    cases h
    exact ⟨[], rfl, fun _ _ => rfl⟩
  blames := by
    intro ts f h
    cases h

/-! ## Readers of one token -/

/-- The next token alone decides, and it is taken if it is accepted. -/
structure OneToken {α : Type} (r : Reader α) : Prop where
  accepts : ∃ t a, Proper [t] ∧ t.kind.isOperator = false ∧ ∀ us, r (t :: us) = .ok (a, us)
  token : ∀ t, (∃ a, ∀ us, r (t :: us) = .ok (a, us)) ∨
    ∃ c : Cause, c.kind = .grammar ∧ ∀ us, r (t :: us) = .error ⟨c, t :: us⟩
  nothing : ∃ c : Cause, c.kind = .grammar ∧ r [] = .error ⟨c, []⟩

theorem OneToken.viable {α : Type} {r : Reader α} (h : OneToken r) : Viable r where
  finishes := by
    obtain ⟨t, a, hproper, hkind, hread⟩ := h.accepts
    exact ⟨[t], a, hproper, fun post _ => ⟨hkind, hread post⟩⟩
  reads := by
    intro ts rest a hts
    cases ts with
    | nil =>
      obtain ⟨c, -, hnone⟩ := h.nothing
      rw [hnone] at hts
      cases hts
    | cons t ts =>
      obtain ⟨b, hread⟩ | ⟨c, -, hfail⟩ := h.token t
      · rw [hread] at hts
        cases hts
        exact ⟨[t], rfl, fun us _ => hread us⟩
      · rw [hfail] at hts
        cases hts
  blames := by
    intro ts f hts
    obtain ⟨t₀, a₀, hproper, -, haccept⟩ := h.accepts
    -- Nothing was taken yet, so a token that is accepted completes the reading.
    have hcomplete : ∃ us a, Proper us ∧
        ∀ post, NoOperator post → r ([] ++ (us ++ post)) = .ok (a, post) :=
      ⟨[t₀], a₀, hproper, fun post _ => haccept post⟩
    cases ts with
    | nil =>
      obtain ⟨c, hc, hnone⟩ := h.nothing
      rw [hnone] at hts
      cases hts
      refine ⟨hc, [], rfl, ?_, hcomplete⟩
      intro us hus
      rw [List.head?_nil, List.head?_eq_none_iff] at hus
      rw [hus]
      exact hnone
    | cons t ts =>
      obtain ⟨b, hread⟩ | ⟨c, hc, hfail⟩ := h.token t
      · rw [hread] at hts
        cases hts
      · rw [hfail] at hts
        cases hts
        refine ⟨hc, [], rfl, ?_, hcomplete⟩
        intro us hus
        rw [List.head?_cons, List.head?_eq_some_iff] at hus
        obtain ⟨us', rfl⟩ := hus
        exact hfail us'

def lineEndToken : Token := ⟨.lineEnd, "3.", .start⟩

def nameToken : Token := ⟨.operand, "+x+", .start⟩

theorem oneToken_stop {α : Type} (a : α) : OneToken fun ts => do return (a, ← lineEnd ts) := by
  constructor
  · exact ⟨lineEndToken, a, by simp [lineEndToken], rfl, fun us => rfl⟩
  · intro t
    by_cases hkind : t.kind = .lineEnd
    · left
      refine ⟨a, fun us => ?_⟩
      rw [lineEnd_word ⟨t, hkind⟩]
      rfl
    · right
      refine ⟨.expectedLineEnd t.kind, rfl, fun us => ?_⟩
      rw [lineEnd, headKind_cons, if_neg hkind]
      rfl
  · exact ⟨.expectedLineEnd .eof, rfl, rfl⟩

theorem viable_name {missing notText : Cause} (hmissing : missing.kind = .grammar)
    (hnotText : notText.kind = .grammar) : Viable (Parse.name missing notText) := by
  apply OneToken.viable
  constructor
  · have hvalue : Value.ofLiteral "+x+" = .text "x" := by decide +kernel
    exact ⟨nameToken, "x", by simp [nameToken], rfl,
      fun us => name_word _ _ ⟨nameToken, "x", rfl, hvalue⟩ us⟩
  · intro t
    by_cases hkind : t.kind = .operand
    · cases hvalue : Value.ofLiteral t.text with
      | text s => exact .inl ⟨s, fun us => name_word _ _ ⟨t, s, hkind, hvalue⟩ us⟩
      | _ => exact .inr ⟨notText, hnotText, fun us => by simp [Parse.name, operand?, hkind, hvalue]⟩
    · exact .inr ⟨missing, hmissing, fun us => by simp [Parse.name, operand?, hkind]⟩
  · exact ⟨missing, hmissing, rfl⟩

/-! ## Expressions -/

theorem oneToken_operand : OneToken operand := by
  constructor
  · exact ⟨nameToken, _, by simp [nameToken], rfl, fun us => operand_word ⟨nameToken, rfl⟩ us⟩
  · intro t
    by_cases hkind : t.kind = .operand
    · exact .inl ⟨_, fun us => operand_word ⟨t, hkind⟩ us⟩
    · exact .inr ⟨.expectedOperand t.kind, rfl, fun us => by simp [operand, operand?, hkind]⟩
  · exact ⟨.expectedOperand .eof, rfl, rfl⟩

theorem headKind_eq_of_head? {us ts : List Token} (h : us.head? = ts.head?) :
    headKind us = headKind ts := by
  cases ts with
  | nil =>
    rw [List.head?_nil, List.head?_eq_none_iff] at h
    rw [h]
  | cons t ts =>
    rw [List.head?_cons, List.head?_eq_some_iff] at h
    obtain ⟨us', rfl⟩ := h
    rfl

theorem exists_operator {ts : List Token} (h : ¬(headKind ts).isOperator = false) :
    ∃ t op rest, ts = t :: rest ∧ t.kind = .operator op := by
  cases ts with
  | nil => exact absurd rfl h
  | cons t ts =>
    cases hkind : t.kind with
    | operator op => exact ⟨t, op, ts, rfl, hkind⟩
    | _ =>
      rw [headKind_cons, hkind] at h
      exact absurd rfl h

/-- Behind an operator there has to be an operand. -/
theorem exprTail_operator (left : Value) {t : Token} {op : Operator} (h : t.kind = .operator op)
    (ts : List Token) :
    exprTail left (t :: ts) = andThen operand (fun right ts => .ok (.binary op left right, ts)) ts := by
  rw [exprTail, headKind_cons, h]
  rfl

theorem viable_exprTail (left : Value) : Viable (exprTail left) where
  finishes :=
    ⟨[], .operand left, proper_nil, fun _ h => ⟨h, exprTail_of_not_operator left h⟩⟩
  reads := by
    intro ts rest e h
    -- Without an operator nothing is taken, and only an operator could change that.
    by_cases hnext : (headKind ts).isOperator = false
    · rw [exprTail_of_not_operator left hnext] at h
      cases h
      refine ⟨[], rfl, ?_⟩
      intro us hus
      apply exprTail_of_not_operator
      rcases hus with hus | hus
      · show (headKind us).isOperator = false
        rw [headKind_eq_of_head? hus]
        exact hnext
      · exact hus
    · obtain ⟨t, op, ts, rfl, hop⟩ := exists_operator hnext
      rw [exprTail_operator left hop] at h
      obtain ⟨front, rfl, hread⟩ :=
        (oneToken_operand.viable.andThen fun right => viable_pure (Expr.binary op left right)).reads h
      refine ⟨t :: front, rfl, ?_⟩
      intro us hus
      rw [List.cons_append, exprTail_operator left hop, hread us hus]
  blames := by
    intro ts f h
    by_cases hnext : (headKind ts).isOperator = false
    · rw [exprTail_of_not_operator left hnext] at h
      cases h
    · obtain ⟨t, op, ts, rfl, hop⟩ := exists_operator hnext
      rw [exprTail_operator left hop] at h
      obtain ⟨hkind, front, rfl, hsame, us, a, hus, hread⟩ :=
        (oneToken_operand.viable.andThen fun right => viable_pure (Expr.binary op left right)).blames
          ts f h
      refine ⟨hkind, t :: front, rfl, ?_, us, a, hus, ?_⟩
      · intro us hus
        rw [List.cons_append, exprTail_operator left hop, hsame us hus]
      · intro post hpost
        rw [List.cons_append, exprTail_operator left hop, hread post hpost]

def NoExpr (ts : List Token) : Prop :=
  headKind ts = .lineEnd ∨ headKind ts = .eof

instance : DecidablePred NoExpr := fun ts =>
  inferInstanceAs (Decidable (headKind ts = .lineEnd ∨ headKind ts = .eof))

theorem expr?_of_noExpr {ts : List Token} (h : NoExpr ts) : expr? ts = .ok (none, ts) := by
  unfold expr?
  rcases h with h | h
  all_goals
    rw [h]
    rfl

theorem expr?_of_expr {ts : List Token} (h : ¬NoExpr ts) :
    expr? ts = andThen operand (fun v => andThen (exprTail v) fun e ts => .ok (some e, ts)) ts := by
  unfold expr?
  split
  · exact absurd (.inl ‹_›) h
  · exact absurd (.inr ‹_›) h
  · rfl

/-- Reads the first operand of an expression, or with `stop` if there is none. -/
def operandOr {α : Type} (stop : Reader α) (f : Value → α) (ts : List Token) :
    Except Failure (α × List Token) :=
  if NoExpr ts then stop ts else andThen operand (fun v rest => .ok (f v, rest)) ts

theorem oneToken_operandOr {α : Type} {stop : Reader α} (f : Value → α)
    (htoken : ∀ t, (∃ a, ∀ us, stop (t :: us) = .ok (a, us)) ∨
      ∃ c : Cause, c.kind = .grammar ∧ ∀ us, stop (t :: us) = .error ⟨c, t :: us⟩)
    (hnothing : ∃ c : Cause, c.kind = .grammar ∧ stop [] = .error ⟨c, []⟩) :
    OneToken (operandOr stop f) := by
  constructor
  · have hexpr (us : List Token) : ¬NoExpr (nameToken :: us) := by simp [NoExpr, nameToken]
    exact ⟨nameToken, _, by simp [nameToken], rfl, fun us =>
      (if_neg (hexpr us)).trans (andThen_ok (operand_word ⟨nameToken, rfl⟩ us))⟩
  · intro t
    by_cases hstop : t.kind = .lineEnd ∨ t.kind = .eof
    · rcases htoken t with ⟨a, hread⟩ | ⟨c, hc, hfail⟩
      · exact .inl ⟨a, fun us => (if_pos hstop).trans (hread us)⟩
      · exact .inr ⟨c, hc, fun us => (if_pos hstop).trans (hfail us)⟩
    · rcases oneToken_operand.token t with ⟨v, hread⟩ | ⟨c, hc, hfail⟩
      · exact .inl ⟨f v, fun us => (if_neg hstop).trans (andThen_ok (hread us))⟩
      · exact .inr ⟨c, hc, fun us => (if_neg hstop).trans (andThen_error (hfail us))⟩
  · obtain ⟨c, hc, hnone⟩ := hnothing
    exact ⟨c, hc, (if_pos (.inr rfl)).trans hnone⟩

def mandatory (missing : Cause) : Reader Expr :=
  andThen (operandOr (fun ts => .error ⟨missing, ts⟩) id) exprTail

theorem viable_mandatory {missing : Cause} (hmissing : missing.kind = .grammar) :
    Viable (mandatory missing) := by
  have hfirst : OneToken (operandOr (fun ts => .error ⟨missing, ts⟩) id) :=
    oneToken_operandOr id (fun t => .inr ⟨missing, hmissing, fun us => rfl⟩)
      ⟨missing, hmissing, rfl⟩
  exact hfirst.viable.andThen viable_exprTail

/-- Asking for an expression and refusing its absence is reading one that has to be there. -/
theorem expr?_eq_mandatory (missing : Cause) (ts : List Token) :
    (NoExpr ts ∧ mandatory missing ts = .error ⟨missing, ts⟩) ∨
    (¬NoExpr ts ∧ expr? ts = andThen (mandatory missing) (fun e ts => .ok (some e, ts)) ts) := by
  by_cases h : NoExpr ts
  · left
    exact ⟨h, andThen_error (if_pos h)⟩
  · right
    refine ⟨h, ?_⟩
    rw [expr?_of_expr h, andThen, andThen, mandatory, andThen, operandOr, if_neg h, andThen]
    cases operand ts with
    | error f => rfl
    | ok x => rfl

theorem branch_eq_mandatory :
    branch = andThen (mandatory .missingCondition) fun cond => endOpening (.branch cond) := by
  funext ts
  rcases expr?_eq_mandatory .missingCondition ts with ⟨hnone, hmissing⟩ | ⟨-, hexpr⟩
  · rw [andThen_error hmissing, branch, expr?_of_noExpr hnone]
    rfl
  · rw [branch, hexpr, andThen, andThen]
    cases mandatory .missingCondition ts with
    | error f => rfl
    | ok x => rfl

theorem loop_eq_mandatory :
    loop = andThen (mandatory .incompleteLoop) fun cond =>
      andThen (mandatory .incompleteLoop) fun step => endOpening (.loop cond step) := by
  funext ts
  rcases expr?_eq_mandatory .incompleteLoop ts with ⟨hnone, hmissing⟩ | ⟨-, hexpr⟩
  -- Without a condition the step is looked for at the same place and is not there either.
  · rw [andThen_error hmissing, loop, expr?_of_noExpr hnone]
    show (expr? ts >>= _) = _
    rw [expr?_of_noExpr hnone]
    rfl
  · rw [loop, hexpr, andThen, andThen]
    cases mandatory .incompleteLoop ts with
    | error f => rfl
    | ok x =>
      obtain ⟨cond, ts'⟩ := x
      simp only [bind, Except.bind]
      rcases expr?_eq_mandatory .incompleteLoop ts' with ⟨hnone, hmissing⟩ | ⟨-, hexpr⟩
      · rw [andThen_error hmissing, expr?_of_noExpr hnone]
        rfl
      · rw [hexpr, andThen, andThen]
        cases mandatory .incompleteLoop ts' with
        | error f => rfl
        | ok x => rfl

/-! ## Lines -/

/-- Reads what follows the first operand of an expression, and the end of the line. -/
def lastExpr (s : Expr → Stmt) (v : Value) : Reader Line :=
  andThen (exprTail v) fun e => endStatement (s e)

theorem viable_lastExpr (s : Expr → Stmt) (v : Value) : Viable (lastExpr s v) :=
  (viable_exprTail v).andThen fun e => (oneToken_stop (Line.statement (s e))).viable

/-- Reads an optional expression and the end of the line. -/
def lastOption (s : Option Expr → Stmt) : Reader Line :=
  andThen (operandOr (fun ts => do return (none, ← lineEnd ts)) some) fun v ts =>
    match v with
    | none => .ok (.statement (s none), ts)
    | some v => lastExpr (fun e => s (some e)) v ts

theorem viable_lastOption (s : Option Expr → Stmt) : Viable (lastOption s) := by
  have hstop : OneToken fun ts => do return ((none : Option Value), ← lineEnd ts) :=
    oneToken_stop none
  apply (oneToken_operandOr some hstop.token hstop.nothing).viable.andThen
  intro v
  cases v with
  | none => exact viable_pure (Line.statement (s none))
  | some v => exact viable_lastExpr (fun e => s (some e)) v

theorem expr?_endStatement (s : Option Expr → Stmt) (ts : List Token) :
    (expr? ts >>= fun x => endStatement (s x.1) x.2) = lastOption s ts := by
  rw [lastOption, andThen, operandOr]
  by_cases h : NoExpr ts
  · rw [expr?_of_noExpr h, if_pos h]
    show (lineEnd ts >>= _) = _
    cases lineEnd ts with
    | error f => rfl
    | ok rest => rfl
  · rw [expr?_of_expr h, if_neg h, andThen, andThen]
    cases operand ts with
    | error f => rfl
    | ok x =>
      simp only [bind, Except.bind, andThen, lastExpr]
      cases exprTail x.1 x.2 with
      | error f => rfl
      | ok y => rfl

/-- Reads the keyword between the name and the initial value of a declaration. -/
def separator (ts : List Token) : Except Failure (Unit × List Token) :=
  if headKind ts = .declare then .ok ((), ts.tail) else .error ⟨.unfinishedDeclaration, ts⟩

theorem viable_separator : Viable separator := by
  apply OneToken.viable
  constructor
  · exact ⟨⟨.declare, "3.1", .start⟩, (), by simp, rfl, fun us => rfl⟩
  · intro t
    by_cases hkind : t.kind = .declare
    · exact .inl ⟨(), fun us => if_pos hkind⟩
    · exact .inr ⟨.unfinishedDeclaration, rfl, fun us => if_neg hkind⟩
  · exact ⟨.unfinishedDeclaration, rfl, rfl⟩

theorem declaration_eq :
    declaration = andThen (Parse.name .missingVariable .variableNotText) fun x =>
      andThen separator fun _ => lastOption (.declare x) := by
  funext ts
  rw [declaration, andThen]
  cases Parse.name .missingVariable .variableNotText ts with
  | error f => rfl
  | ok x =>
    simp only [bind, Except.bind, andThen, separator, ← expr?_endStatement]
    by_cases hsep : headKind x.2 = .declare
    · rw [if_pos hsep, if_pos hsep]
    · rw [if_neg hsep, if_neg hsep]
      rfl

theorem readLine_operand {t : Token} (h : t.kind = .operand) (ts : List Token) :
    readLine (t :: ts) = lastExpr (fun e => .print (some e)) (Value.ofLiteral t.text) ts := by
  have hexpr : ¬NoExpr (t :: ts) := by simp [NoExpr, h]
  have hfirst : operandOr (fun ts => do return (none, ← lineEnd ts)) some (t :: ts) =
      .ok (some (Value.ofLiteral t.text), ts) :=
    (if_neg hexpr).trans (andThen_ok (operand_word ⟨t, h⟩ ts))
  rw [readLine, headKind_cons, h]
  show (expr? (t :: ts) >>= fun x => endStatement (.print x.1) x.2) = _
  rw [expr?_endStatement, lastOption, andThen_ok hfirst]

/-- Behind its first token every line is read by a viable reader. -/
theorem viable_readLine {t : Token} (h : t.kind ≠ .eof) : Viable fun ts => readLine (t :: ts) := by
  -- The first token decides which readers follow one another.
  cases hkind : t.kind with
  | eof => exact absurd hkind h
  | operand =>
    simp only [readLine_operand hkind]
    exact viable_lastExpr _ _
  | dashes =>
    simp only [readLine, headKind_cons, hkind, List.tail_cons]
    exact (viable_name rfl rfl).andThen fun path => (oneToken_stop (Line.statement _)).viable
  | call =>
    simp only [readLine, headKind_cons, hkind, List.tail_cons]
    exact (viable_name rfl rfl).andThen fun f => (oneToken_stop (Line.statement _)).viable
  | declare =>
    simp only [readLine, headKind_cons, hkind, List.tail_cons, declaration_eq]
    exact (viable_name rfl rfl).andThen fun x =>
      viable_separator.andThen fun _ => viable_lastOption _
  | forEach =>
    simp only [readLine, headKind_cons, hkind, List.tail_cons]
    exact (viable_name rfl rfl).andThen fun source =>
      (viable_name rfl rfl).andThen fun item => (oneToken_stop (Line.opening _)).viable
  | loop =>
    simp only [readLine, headKind_cons, hkind, List.tail_cons, loop_eq_mandatory]
    exact (viable_mandatory rfl).andThen fun cond =>
      (viable_mandatory rfl).andThen fun step => (oneToken_stop (Line.opening _)).viable
  | branch =>
    simp only [readLine, headKind_cons, hkind, List.tail_cons, branch_eq_mandatory]
    exact (viable_mandatory rfl).andThen fun cond => (oneToken_stop (Line.opening _)).viable
  | stars =>
    simp only [readLine, headKind_cons, hkind, List.tail_cons]
    exact (viable_name rfl rfl).andThen fun f => (oneToken_stop (Line.opening _)).viable
  | _ =>
    simp only [readLine, headKind_cons, hkind, List.tail_cons]
    exact viable_pure Line.blank

end Grammar

end PiScript
