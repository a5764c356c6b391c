import PiScript.Statement.Parse

/-!
# Reading makes progress

What remains after reading is a suffix of what there was. Every line that is a statement or opens
a block is closed by a line end, so reading a line other than at the end of the program takes at
least one token.
-/

namespace PiScript

namespace Parse

theorem exists_of_bind_eq_ok {ε α β : Type} {x : Except ε α} {f : α → Except ε β} {b : β}
    (h : (x >>= f) = .ok b) : ∃ a, x = .ok a ∧ f a = .ok b := by
  cases x with
  | error e => cases h
  | ok a => exact ⟨a, rfl, h⟩

/-! ## Pieces of a line -/

theorem lineEnd_eq_ok {ts rest : List Token} (h : lineEnd ts = .ok rest) :
    ∃ t, t.kind = .lineEnd ∧ ts = t :: rest := by
  unfold lineEnd at h
  split at h
  · next hkind =>
    cases h
    cases ts with
    | nil => cases hkind
    | cons t ts => exact ⟨t, hkind, rfl⟩
  · cases h

theorem operand?_suffix {ts rest : List Token} {v : Value} (h : operand? ts = some (v, rest)) :
    rest <:+ ts := by
  unfold operand? at h
  split at h
  · cases h
  · split at h <;> cases h
    exact List.suffix_cons _ _

theorem operand_suffix {ts rest : List Token} {v : Value} (h : operand ts = .ok (v, rest)) :
    rest <:+ ts := by
  unfold operand at h
  split at h <;> cases h
  exact operand?_suffix ‹_›

theorem name_suffix {missing notText : Cause} {ts rest : List Token} {s : String}
    (h : name missing notText ts = .ok (s, rest)) : rest <:+ ts := by
  unfold name at h
  split at h <;> cases h
  exact operand?_suffix ‹_›

theorem exprTail_suffix {left : Value} {ts rest : List Token} {e : Expr}
    (h : exprTail left ts = .ok (e, rest)) : rest <:+ ts := by
  unfold exprTail at h
  split at h
  · obtain ⟨⟨right, rest'⟩, hop, heq⟩ := exists_of_bind_eq_ok h
    cases heq
    exact (operand_suffix hop).trans (List.tail_suffix ts)
  · cases h
    exact List.suffix_refl ts

theorem expr?_suffix {ts rest : List Token} {e : Option Expr} (h : expr? ts = .ok (e, rest)) :
    rest <:+ ts := by
  unfold expr? at h
  split at h
  · cases h; exact List.suffix_refl ts
  · cases h; exact List.suffix_refl ts
  · obtain ⟨⟨left, behind⟩, hop, h⟩ := exists_of_bind_eq_ok h
    obtain ⟨⟨e', rest'⟩, htail, heq⟩ := exists_of_bind_eq_ok h
    cases heq
    exact (exprTail_suffix htail).trans (operand_suffix hop)

/-! ## Logical lines -/

/-- Reading from `ts` ended with a line end and left `rest`. -/
def EndsLine (ts rest : List Token) : Prop :=
  ∃ ts', ts' <:+ ts ∧ lineEnd ts' = .ok rest

theorem EndsLine.of_suffix {ts ts' rest : List Token} (h : EndsLine ts' rest) (hs : ts' <:+ ts) :
    EndsLine ts rest := by
  obtain ⟨us, hus, hend⟩ := h
  exact ⟨us, hus.trans hs, hend⟩

theorem EndsLine.length_lt {ts rest : List Token} (h : EndsLine ts rest) :
    rest.length < ts.length := by
  obtain ⟨us, hus, hend⟩ := h
  obtain ⟨t, _, rfl⟩ := lineEnd_eq_ok hend
  exact Nat.lt_of_lt_of_le (Nat.lt_succ_self _) hus.length_le

theorem endStatement_endsLine {s : Stmt} {ts rest : List Token} {l : Line}
    (h : endStatement s ts = .ok (l, rest)) : EndsLine ts rest := by
  obtain ⟨rest', hend, heq⟩ := exists_of_bind_eq_ok h
  cases heq
  exact ⟨ts, List.suffix_refl ts, hend⟩

theorem endOpening_endsLine {head : BlockHead} {ts rest : List Token} {l : Line}
    (h : endOpening head ts = .ok (l, rest)) : EndsLine ts rest := by
  obtain ⟨rest', hend, heq⟩ := exists_of_bind_eq_ok h
  cases heq
  exact ⟨ts, List.suffix_refl ts, hend⟩

theorem inclusion_endsLine {ts rest : List Token} {l : Line} (h : inclusion ts = .ok (l, rest)) :
    EndsLine ts rest := by
  obtain ⟨⟨path, ts'⟩, hname, h⟩ := exists_of_bind_eq_ok h
  exact (endStatement_endsLine h).of_suffix (name_suffix hname)

theorem print_endsLine {ts rest : List Token} {l : Line} (h : print ts = .ok (l, rest)) :
    EndsLine ts rest := by
  obtain ⟨⟨e, ts'⟩, hexpr, h⟩ := exists_of_bind_eq_ok h
  exact (endStatement_endsLine h).of_suffix (expr?_suffix hexpr)

theorem declaration_endsLine {ts rest : List Token} {l : Line}
    (h : declaration ts = .ok (l, rest)) : EndsLine ts rest := by
  obtain ⟨⟨x, ts'⟩, hname, h⟩ := exists_of_bind_eq_ok h
  refine EndsLine.of_suffix ?_ (name_suffix hname)
  simp only at h
  split at h
  · obtain ⟨⟨init, ts''⟩, hexpr, h⟩ := exists_of_bind_eq_ok h
    exact (endStatement_endsLine h).of_suffix ((expr?_suffix hexpr).trans (List.tail_suffix ts'))
  · cases h

theorem call_endsLine {ts rest : List Token} {l : Line} (h : call ts = .ok (l, rest)) :
    EndsLine ts rest := by
  obtain ⟨⟨f, ts'⟩, hname, h⟩ := exists_of_bind_eq_ok h
  exact (endStatement_endsLine h).of_suffix (name_suffix hname)

theorem forEach_endsLine {ts rest : List Token} {l : Line} (h : forEach ts = .ok (l, rest)) :
    EndsLine ts rest := by
  obtain ⟨⟨source, ts'⟩, hsource, h⟩ := exists_of_bind_eq_ok h
  obtain ⟨⟨item, ts''⟩, hitem, h⟩ := exists_of_bind_eq_ok h
  exact (endOpening_endsLine h).of_suffix ((name_suffix hitem).trans (name_suffix hsource))

theorem loop_endsLine {ts rest : List Token} {l : Line} (h : loop ts = .ok (l, rest)) :
    EndsLine ts rest := by
  obtain ⟨⟨cond, ts'⟩, hcond, h⟩ := exists_of_bind_eq_ok h
  obtain ⟨⟨step, ts''⟩, hstep, h⟩ := exists_of_bind_eq_ok h
  refine EndsLine.of_suffix ?_ ((expr?_suffix hstep).trans (expr?_suffix hcond))
  simp only at h
  split at h
  · exact endOpening_endsLine h
  · cases h

theorem branch_endsLine {ts rest : List Token} {l : Line} (h : branch ts = .ok (l, rest)) :
    EndsLine ts rest := by
  obtain ⟨⟨cond, ts'⟩, hcond, h⟩ := exists_of_bind_eq_ok h
  refine EndsLine.of_suffix ?_ (expr?_suffix hcond)
  simp only at h
  split at h
  · exact endOpening_endsLine h
  · cases h

theorem definition_endsLine {ts rest : List Token} {l : Line}
    (h : definition ts = .ok (l, rest)) : EndsLine ts rest := by
  obtain ⟨⟨f, ts'⟩, hname, h⟩ := exists_of_bind_eq_ok h
  exact (endOpening_endsLine h).of_suffix (name_suffix hname)

theorem length_tail_lt {ts : List Token} (h : headKind ts ≠ .eof) : ts.tail.length < ts.length := by
  cases ts with
  | nil => exact absurd rfl h
  | cons t ts => exact Nat.lt_succ_self ts.length

/-- Reading a line takes at least one token, except at the end of the program. -/
theorem length_readLine_lt {ts rest : List Token} {l : Line} (hne : headKind ts ≠ .eof)
    (h : readLine ts = .ok (l, rest)) : rest.length < ts.length := by
  have htail := List.tail_suffix ts
  unfold readLine at h
  split at h
  · exact absurd ‹headKind ts = .eof› hne
  · exact ((inclusion_endsLine h).of_suffix htail).length_lt
  · exact (print_endsLine h).length_lt
  · exact ((declaration_endsLine h).of_suffix htail).length_lt
  · exact ((forEach_endsLine h).of_suffix htail).length_lt
  · exact ((loop_endsLine h).of_suffix htail).length_lt
  · exact ((branch_endsLine h).of_suffix htail).length_lt
  · exact ((definition_endsLine h).of_suffix htail).length_lt
  · exact ((call_endsLine h).of_suffix htail).length_lt
  all_goals
    cases h
    exact length_tail_lt hne

end Parse

end PiScript
