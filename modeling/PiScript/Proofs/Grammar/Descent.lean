import PiScript.Proofs.Grammar.Program

/-!
# Reading by descent

`assemble` keeps the open blocks on a stack. A block can as well be read by itself, line after line
up to its end, where a line that opens a block is read together with the lines of that block.
`wholeLine` and `blockBody` do this and give up after a given number of rounds.

They move forward only: what is left behind a piece is left of the tokens before it without an end
of file in between, whether reading has succeeded or not, and a line takes at least one token. So as
many rounds as there are tokens are more than enough, and the result is that of `assemble`
(`reading_makes_progress`).
-/

namespace PiScript

namespace Grammar

open Parse

/-! ## Moving forward -/

/-- Taking tokens from the front of `ts`, none of them an end of file, leaves `rest`. -/
def Leaves (ts rest : List Token) : Prop :=
  ∃ taken, ts = taken ++ rest ∧ ∀ t ∈ taken, t.kind ≠ .eof

theorem Leaves.refl (ts : List Token) : Leaves ts ts :=
  ⟨[], rfl, by simp⟩

theorem Leaves.trans {ts us rest : List Token} (h : Leaves ts us) (h' : Leaves us rest) :
    Leaves ts rest := by
  obtain ⟨taken, rfl, htaken⟩ := h
  obtain ⟨taken', rfl, htaken'⟩ := h'
  refine ⟨taken ++ taken', (List.append_assoc ..).symm, ?_⟩
  exact List.forall_mem_append.mpr ⟨htaken, htaken'⟩

theorem Leaves.tail {ts : List Token} (h : headKind ts ≠ .eof) : Leaves ts ts.tail := by
  cases ts with
  | nil => exact absurd rfl h
  | cons t ts => exact ⟨[t], rfl, List.forall_mem_singleton.mpr h⟩

theorem Leaves.tail_of_kind {ts : List Token} {kind : TokenKind} (h : headKind ts = kind)
    (hkind : kind ≠ .eof) : Leaves ts ts.tail := by
  apply Leaves.tail
  rw [h]
  exact hkind

theorem Leaves.length_le {ts rest : List Token} (h : Leaves ts rest) : rest.length ≤ ts.length := by
  obtain ⟨taken, rfl, -⟩ := h
  rw [List.length_append]
  omega

/-- What is left where reading has stopped: behind what was read, or from the offending token on. -/
def leftover {α : Type} : Except Failure (α × List Token) → List Token
  | .ok (_, rest) => rest
  | .error f => f.rest

theorem leaves_bind {α β : Type} {ts : List Token} {x : Except Failure (α × List Token)}
    {k : α × List Token → Except Failure (β × List Token)} (hx : Leaves ts (leftover x))
    (hk : ∀ a rest, Leaves rest (leftover (k (a, rest)))) : Leaves ts (leftover (x >>= k)) := by
  cases x with
  | error f => exact hx
  | ok y => exact hx.trans (hk y.1 y.2)

/-! ## Readers of a line -/

theorem leaves_lineEnd {α : Type} (a : α) (ts : List Token) :
    Leaves ts (leftover (lineEnd ts >>= fun rest => .ok (a, rest))) := by
  unfold lineEnd
  split
  · next hkind => exact .tail_of_kind hkind (by decide)
  · exact .refl ts

theorem leaves_of_operand? {ts rest : List Token} {v : Value} (h : operand? ts = some (v, rest)) :
    Leaves ts rest := by
  obtain ⟨w, rfl, -⟩ := exists_of_operand? h
  exact .tail_of_kind w.kind_token (by decide)

theorem leaves_operand (ts : List Token) : Leaves ts (leftover (operand ts)) := by
  unfold operand
  split
  · next read hread => exact leaves_of_operand? hread
  · exact .refl ts

theorem leaves_name (missing notText : Cause) (ts : List Token) :
    Leaves ts (leftover (Parse.name missing notText ts)) := by
  unfold Parse.name
  split
  · next s rest hread => exact leaves_of_operand? hread
  · exact .refl ts
  · exact .refl ts

theorem leaves_exprTail (left : Value) (ts : List Token) :
    Leaves ts (leftover (exprTail left ts)) := by
  unfold exprTail
  split
  · next op hop =>
    apply (Leaves.tail_of_kind hop (by simp)).trans
    apply leaves_bind (leaves_operand ts.tail)
    intro right rest
    exact .refl rest
  · exact .refl ts

theorem leaves_expr? (ts : List Token) : Leaves ts (leftover (expr? ts)) := by
  unfold expr?
  split
  · exact .refl ts
  · exact .refl ts
  · apply leaves_bind (leaves_operand ts)
    intro left rest
    apply leaves_bind (leaves_exprTail left rest)
    intro e rest'
    exact .refl rest'

theorem leaves_declaration (ts : List Token) : Leaves ts (leftover (declaration ts)) := by
  apply leaves_bind (leaves_name _ _ ts)
  intro x rest
  show Leaves rest (leftover (if headKind rest = .declare then _ else throw _))
  split
  · next hkind =>
    apply (Leaves.tail_of_kind hkind (by decide)).trans
    apply leaves_bind (leaves_expr? rest.tail)
    intro init rest'
    exact leaves_lineEnd _ rest'
  · exact .refl rest

theorem leaves_loop (ts : List Token) : Leaves ts (leftover (loop ts)) := by
  apply leaves_bind (leaves_expr? ts)
  intro cond rest
  apply leaves_bind (leaves_expr? rest)
  intro step rest'
  cases cond with
  | none => exact .refl rest'
  | some cond =>
    cases step with
    | none => exact .refl rest'
    | some step => exact leaves_lineEnd _ rest'

theorem leaves_branch (ts : List Token) : Leaves ts (leftover (branch ts)) := by
  apply leaves_bind (leaves_expr? ts)
  intro cond rest
  cases cond with
  | none => exact .refl rest
  | some cond => exact leaves_lineEnd _ rest

theorem leaves_forEach (ts : List Token) : Leaves ts (leftover (forEach ts)) := by
  apply leaves_bind (leaves_name _ _ ts)
  intro source rest
  apply leaves_bind (leaves_name _ _ rest)
  intro item rest'
  exact leaves_lineEnd _ rest'

theorem leaves_named (missing notText : Cause) (line : String → Line) (ts : List Token) :
    Leaves ts (leftover (Parse.name missing notText ts >>= fun x =>
      lineEnd x.2 >>= fun rest => .ok (line x.1, rest))) := by
  apply leaves_bind (leaves_name missing notText ts)
  intro s rest
  exact leaves_lineEnd (line s) rest

theorem leaves_readLine (ts : List Token) : Leaves ts (leftover (readLine ts)) := by
  by_cases heof : headKind ts = .eof
  · unfold readLine
    rw [heof]
    exact .refl ts
  · have htail := Leaves.tail heof
    unfold readLine
    split
    · exact .refl ts
    · exact htail.trans (leaves_named _ _ (fun path => .statement (.inclusion path)) ts.tail)
    · apply leaves_bind (leaves_expr? ts)
      intro e rest
      exact leaves_lineEnd _ rest
    · exact htail.trans (leaves_declaration ts.tail)
    · exact htail.trans (leaves_forEach ts.tail)
    · exact htail.trans (leaves_loop ts.tail)
    · exact htail.trans (leaves_branch ts.tail)
    · exact htail.trans (leaves_named _ _ (fun f => .opening (.define f)) ts.tail)
    · exact htail.trans (leaves_named _ _ (fun f => .statement (.call f)) ts.tail)
    all_goals exact htail

/-! ## Lines with their blocks -/

/-- The result of reading, if it was not given up. -/
abbrev Attempt (α : Type) := Option (Except Failure α)

def Attempt.andThen {α β : Type} (x : Attempt α) (k : α → Attempt β) : Attempt β :=
  match x with
  | none => none
  | some (.error f) => some (.error f)
  | some (.ok a) => k a

/-- Reads a line and, if it opens a block, the lines of the block with `block`. -/
def wholeLine (block : List Token → Attempt (Program × List Token)) (ts : List Token) :
    Attempt (Option Stmt × List Token) :=
  match readLine ts with
  | .error f => some (.error f)
  | .ok (.blank, rest) => some (.ok (none, rest))
  | .ok (.statement s, rest) => some (.ok (some s, rest))
  | .ok (.opening head, rest) =>
    Attempt.andThen (block rest) fun x => some (.ok (some (head.toStmt x.1), x.2))

/-- Reads lines up to the end of the block, behind the statements `read` of it, last first. Gives up
after so many rounds, where a block inside has one round less. -/
def blockBody : Nat → List Stmt → List Token → Attempt (Program × List Token)
  | 0, _, _ => none
  | fuel + 1, read, ts =>
    if headKind ts = .eof then some (.error ⟨.unterminatedBlock, ts⟩)
    else if headKind ts = .endBlock then
      some (lineEnd ts.tail >>= fun rest => .ok (read.reverse, rest))
    else
      Attempt.andThen (wholeLine (blockBody fuel []) ts) fun x =>
        blockBody fuel (x.1.toList ++ read) x.2

/-- Reads lines up to the end of the program, behind the statements `read`, last first. -/
def programBody : Nat → List Stmt → List Token → Attempt Program
  | 0, _, _ => none
  | fuel + 1, read, ts =>
    if headKind ts = .eof then some (.ok read.reverse)
    else
      Attempt.andThen (wholeLine (blockBody fuel []) ts) fun x =>
        programBody fuel (x.1.toList ++ read) x.2

def ofTokensByDescent (fuel : Nat) (ts : List Token) : Option (Except Error Program) :=
  match ts.find? (·.kind = .malformed) with
  | some t => some (.error ⟨.unexpectedWord t.text, some t.pos⟩)
  | none => (programBody fuel [] ts).map fun x => x.mapError (Failure.toError ts)

theorem Attempt.andThen_eq_some {α β : Type} {x : Attempt α} {k : α → Attempt β}
    {y : Except Failure β} (h : x.andThen k = some y) :
    (∃ f, x = some (.error f) ∧ y = .error f) ∨ ∃ a, x = some (.ok a) ∧ k a = some y := by
  match x with
  | none => cases h
  | some (.error f) =>
    cases h
    exact .inl ⟨f, rfl, rfl⟩
  | some (.ok a) => exact .inr ⟨a, rfl, h⟩

/-- What reading a whole line comes to: the line cannot be read, it opens no block, or it is read
with the block that it opens. -/
theorem wholeLine_cases {block : List Token → Attempt (Program × List Token)} {ts : List Token}
    {x : Except Failure (Option Stmt × List Token)} (h : wholeLine block ts = some x) :
    (∃ f, readLine ts = .error f ∧ x = .error f) ∨
    (∃ s rest, readLine ts = .ok (lineOf s, rest) ∧ x = .ok (s, rest)) ∨
    ∃ head rest y, readLine ts = .ok (.opening head, rest) ∧ block rest = some y ∧
      x = y >>= fun z => .ok (some (head.toStmt z.1), z.2) := by
  unfold wholeLine at h
  split at h
  · next f hline =>
    cases h
    exact .inl ⟨f, hline, rfl⟩
  · next rest hline =>
    cases h
    exact .inr (.inl ⟨none, rest, hline, rfl⟩)
  · next s rest hline =>
    cases h
    exact .inr (.inl ⟨some s, rest, hline, rfl⟩)
  · next head rest hline =>
    refine .inr (.inr ⟨head, rest, ?_⟩)
    obtain ⟨f, hblock, rfl⟩ | ⟨z, hblock, hz⟩ := Attempt.andThen_eq_some h
    · exact ⟨.error f, hline, hblock, rfl⟩
    · cases hz
      exact ⟨.ok z, hline, hblock, rfl⟩

theorem blockBody_cases {fuel : Nat} {read : List Stmt} {ts : List Token}
    {x : Except Failure (Program × List Token)} (h : blockBody (fuel + 1) read ts = some x) :
    (headKind ts = .eof ∧ x = .error ⟨.unterminatedBlock, ts⟩) ∨
    (headKind ts = .endBlock ∧ x = lineEnd ts.tail >>= fun rest => .ok (read.reverse, rest)) ∨
    (headKind ts ≠ .eof ∧ headKind ts ≠ .endBlock ∧
      ((∃ f, wholeLine (blockBody fuel []) ts = some (.error f) ∧ x = .error f) ∨
        ∃ s rest, wholeLine (blockBody fuel []) ts = some (.ok (s, rest)) ∧
          blockBody fuel (s.toList ++ read) rest = some x)) := by
  rw [blockBody] at h
  split at h
  · next heof =>
    cases h
    exact .inl ⟨heof, rfl⟩
  · next heof =>
    split at h
    · next hend =>
      cases h
      exact .inr (.inl ⟨hend, rfl⟩)
    · next hend =>
      refine .inr (.inr ⟨heof, hend, ?_⟩)
      obtain hfail | ⟨⟨s, rest⟩, hline, hrest⟩ := Attempt.andThen_eq_some h
      · exact .inl hfail
      · exact .inr ⟨s, rest, hline, hrest⟩

/-! ## Descent moves forward -/

section

variable {block : List Token → Attempt (Program × List Token)}
  (hblock : ∀ us y, block us = some y → Leaves us (leftover y)) {ts : List Token}

include hblock

theorem leaves_wholeLine {x : Except Failure (Option Stmt × List Token)}
    (h : wholeLine block ts = some x) : Leaves ts (leftover x) := by
  have hread := leaves_readLine ts
  obtain ⟨f, hline, rfl⟩ | ⟨s, rest, hline, rfl⟩ | ⟨head, rest, y, hline, hy, rfl⟩ :=
    wholeLine_cases h
  · rw [hline] at hread
    exact hread
  · rw [hline] at hread
    exact hread
  · rw [hline] at hread
    apply hread.trans
    apply leaves_bind (hblock rest y hy)
    intro body rest'
    exact .refl rest'

/-- A line takes a token of its own, and its block takes none back. -/
theorem length_wholeLine_lt {s : Option Stmt} {rest : List Token} (heof : headKind ts ≠ .eof)
    (h : wholeLine block ts = some (.ok (s, rest))) : rest.length < ts.length := by
  obtain ⟨f, -, hx⟩ | ⟨s', rest', hline, hx⟩ | ⟨head, rest', y, hline, hy, hx⟩ := wholeLine_cases h
  · cases hx
  · cases hx
    exact length_readLine_lt heof hline
  · have hlt : rest'.length < ts.length := length_readLine_lt heof hline
    cases y with
    | error f => cases hx
    | ok z =>
      cases hx
      have hle : z.2.length ≤ rest'.length := (hblock rest' (.ok z) hy).length_le
      omega

end

theorem leaves_blockBody {fuel : Nat} {read : List Stmt} {ts : List Token}
    {x : Except Failure (Program × List Token)} (h : blockBody fuel read ts = some x) :
    Leaves ts (leftover x) := by
  induction fuel generalizing read ts x with
  | zero => cases h
  | succ fuel ih =>
    have hwhole {y : Except Failure (Option Stmt × List Token)}
        (hline : wholeLine (blockBody fuel []) ts = some y) : Leaves ts (leftover y) :=
      leaves_wholeLine (fun us z hz => ih hz) hline
    obtain ⟨-, rfl⟩ | ⟨hend, rfl⟩ | ⟨-, -, ⟨f, hline, rfl⟩ | ⟨s, rest, hline, hrest⟩⟩ :=
      blockBody_cases h
    · exact .refl ts
    · have htail : Leaves ts ts.tail := by
        apply Leaves.tail
        rw [hend]
        simp
      exact htail.trans (leaves_lineEnd read.reverse ts.tail)
    · exact hwhole hline
    · exact (hwhole hline).trans (ih hrest)

theorem length_wholeLine_blockBody_lt {fuel : Nat} {ts rest : List Token} {s : Option Stmt}
    (heof : headKind ts ≠ .eof) (h : wholeLine (blockBody fuel []) ts = some (.ok (s, rest))) :
    rest.length < ts.length :=
  length_wholeLine_lt (fun _ _ hy => leaves_blockBody hy) heof h

/-! ## Descent comes to an end -/

theorem exists_wholeLine {block : List Token → Attempt (Program × List Token)} {ts : List Token}
    (hblock : ∀ us, us.length < ts.length → ∃ y, block us = some y) :
    ∃ x, wholeLine block ts = some x := by
  unfold wholeLine
  split
  · exact ⟨_, rfl⟩
  · exact ⟨_, rfl⟩
  · exact ⟨_, rfl⟩
  · next head rest hline =>
    have heof : headKind ts ≠ .eof := by
      intro heof
      rw [readLine, heof] at hline
      cases hline
    obtain ⟨y, hy⟩ := hblock rest (length_readLine_lt heof hline)
    rw [hy]
    cases y with
    | error f => exact ⟨_, rfl⟩
    | ok z => exact ⟨_, rfl⟩

theorem exists_blockBody {fuel : Nat} (read : List Stmt) {ts : List Token}
    (h : ts.length < fuel) : ∃ x, blockBody fuel read ts = some x := by
  -- A round less is left for a line inside and for the lines behind it, but also a token less.
  induction fuel generalizing read ts with
  | zero => omega
  | succ fuel ih =>
    rw [blockBody]
    split
    · exact ⟨_, rfl⟩
    · next heof =>
      split
      · exact ⟨_, rfl⟩
      · obtain ⟨x, hline⟩ : ∃ x, wholeLine (blockBody fuel []) ts = some x := by
          apply exists_wholeLine
          intro us hus
          exact ih [] (by omega)
        rw [hline]
        cases x with
        | error f => exact ⟨_, rfl⟩
        | ok y =>
          have hlt : y.2.length < ts.length := length_wholeLine_blockBody_lt heof hline
          exact ih (y.1.toList ++ read) (by omega)

/-! ## Descent and the stack -/

section

variable {blocks : List OpenBlock} {read : List Stmt} {ts : List Token}

/-- With a line read as a whole, `assemble` goes on behind the block that it opens. -/
theorem assemble_wholeLine {block : List Token → Attempt (Program × List Token)}
    (hblock : ∀ us y head, block us = some y → assemble (⟨head, read⟩ :: blocks) [] us =
      y >>= fun z => assemble blocks (head.toStmt z.1 :: read) z.2)
    (heof : headKind ts ≠ .eof) (hkind : headKind ts = .endBlock → blocks = [])
    {x : Except Failure (Option Stmt × List Token)} (h : wholeLine block ts = some x) :
    assemble blocks read ts = x >>= fun z => assemble blocks (z.1.toList ++ read) z.2 := by
  rw [assemble_line_eq heof hkind]
  obtain ⟨f, hline, rfl⟩ | ⟨s, rest, hline, rfl⟩ | ⟨head, rest, y, hline, hy, rfl⟩ :=
    wholeLine_cases h
  · rw [hline]
    rfl
  · rw [hline]
    cases s with
    | none => rfl
    | some s => rfl
  · rw [hline]
    show assemble (⟨head, read⟩ :: blocks) [] rest = _
    rw [hblock rest y head hy]
    cases y with
    | error f => rfl
    | ok z => rfl

/-- Inside a block `assemble` reads the rest of it and goes on in the block around it. -/
theorem assemble_blockBody {fuel : Nat} {x : Except Failure (Program × List Token)}
    (h : blockBody fuel read ts = some x) (block : OpenBlock) (outer : List OpenBlock) :
    assemble (block :: outer) read ts =
      x >>= fun z => assemble outer (block.head.toStmt z.1 :: block.before) z.2 := by
  induction fuel generalizing read ts x block outer with
  | zero => cases h
  | succ fuel ih =>
    -- A line and its block are read in one go, whatever blocks are open around them.
    have hwhole {y : Except Failure (Option Stmt × List Token)} (heof : headKind ts ≠ .eof)
        (hend : headKind ts ≠ .endBlock) (hline : wholeLine (blockBody fuel []) ts = some y) :
        assemble (block :: outer) read ts =
          y >>= fun z => assemble (block :: outer) (z.1.toList ++ read) z.2 :=
      assemble_wholeLine (fun us z head hz => ih hz ⟨head, read⟩ (block :: outer)) heof
        (fun h => absurd h hend) hline
    obtain ⟨heof, rfl⟩ | ⟨hend, rfl⟩ | ⟨heof, hend, ⟨f, hline, rfl⟩ | ⟨s, rest, hline, hrest⟩⟩ :=
      blockBody_cases h
    · rw [assemble_eof_eq heof]
      rfl
    · rw [assemble_close_eq hend]
      cases lineEnd ts.tail with
      | error f => rfl
      | ok rest => rfl
    · exact hwhole heof hend hline
    · rw [hwhole heof hend hline]
      exact ih hrest block outer

end

theorem programBody_eq_assemble {fuel : Nat} (read : List Stmt) {ts : List Token}
    (h : ts.length < fuel) : programBody fuel read ts = some (assemble [] read ts) := by
  induction fuel generalizing read ts with
  | zero => omega
  | succ fuel ih =>
    rw [programBody]
    split
    · next heof => rw [assemble_eof heof]
    · next heof =>
      obtain ⟨x, hline⟩ : ∃ x, wholeLine (blockBody fuel []) ts = some x := by
        apply exists_wholeLine
        intro us hus
        exact exists_blockBody [] (by omega)
      rw [hline, assemble_wholeLine (fun us y head hy => assemble_blockBody hy ⟨head, read⟩ []) heof
        (fun _ => rfl) hline]
      cases x with
      | error f => rfl
      | ok y =>
        -- The line has taken a token, so one round less is enough for the rest.
        have hlt : y.2.length < ts.length := length_wholeLine_blockBody_lt heof hline
        exact ih (y.1.toList ++ read) (by omega)

theorem ofTokensByDescent_eq {fuel : Nat} {ts : List Token} (h : ts.length < fuel) :
    ofTokensByDescent fuel ts = some (Program.ofTokens ts) := by
  rw [ofTokensByDescent, Program.ofTokens, programBody_eq_assemble [] h]
  cases ts.find? (·.kind = .malformed) with
  | none => rfl
  | some t => rfl

/-! ## Places in a token list -/

/-- Reading has come from the place `i` of a token list to the place `j`, where `rest` is left, and
no end of file was passed. Places are counted from zero, up to the one behind the last token. -/
structure Moves (ts : List Token) (i j : Nat) (rest : List Token) : Prop where
  rest_eq : rest = ts.drop j
  le : i ≤ j
  le_length : j ≤ ts.length
  passed : ∀ k, i ≤ k → k < j → headKind (ts.drop k) ≠ .eof

theorem exists_moves {ts rest : List Token} {i : Nat} (hi : i ≤ ts.length)
    (h : Leaves (ts.drop i) rest) : ∃ j, Moves ts i j rest := by
  obtain ⟨taken, hts, htaken⟩ := h
  have hlength : ts.length - i = taken.length + rest.length := by
    rw [← List.length_drop, hts, List.length_append]
  refine ⟨i + taken.length, ?_, by omega, by omega, ?_⟩
  · rw [← List.drop_drop, hts, List.drop_left]
  · intro k hik hk
    obtain ⟨d, rfl⟩ := Nat.exists_eq_add_of_le hik
    have hd : d < taken.length := by omega
    rw [← List.drop_drop, hts, List.drop_append_of_le_length (by omega),
      List.drop_eq_getElem_cons hd]
    exact htaken taken[d] (List.getElem_mem hd)

theorem Moves.lt {ts rest : List Token} {i j : Nat} (h : Moves ts i j rest)
    (hlt : rest.length < (ts.drop i).length) : i < j := by
  have hrest := h.rest_eq
  subst hrest
  rw [List.length_drop, List.length_drop] at hlt
  omega

/-- From every place of every token list, reading an expression, a block, or a line with its block
stops, well or with a failure, at a place of the list that lies no further back, and passes no end
of file. A line that is read has taken a token, unless the file ends there. So reading ends: as many
rounds as there are tokens left are more than enough for a line and for a block, and for a program,
whose result is the one of the parser. -/
theorem reading_makes_progress (ts : List Token) :
    (∀ i, i ≤ ts.length →
      (∃ j, Moves ts i j (leftover (expr? (ts.drop i)))) ∧
      (∀ fuel read x, blockBody fuel read (ts.drop i) = some x → ∃ j, Moves ts i j (leftover x)) ∧
      (∀ fuel x, wholeLine (blockBody fuel []) (ts.drop i) = some x →
        ∃ j, Moves ts i j (leftover x) ∧
          (headKind (ts.drop i) ≠ .eof → ∀ y, x = .ok y → i < j)) ∧
      ∀ fuel, ts.length - i < fuel →
        (∃ x, wholeLine (blockBody fuel []) (ts.drop i) = some x) ∧
        ∀ read, ∃ x, blockBody fuel read (ts.drop i) = some x) ∧
    ∀ fuel, ts.length < fuel → ofTokensByDescent fuel ts = some (Program.ofTokens ts) := by
  refine ⟨fun i hi => ⟨?_, ?_, ?_, ?_⟩, fun fuel hfuel => ofTokensByDescent_eq hfuel⟩
  · exact exists_moves hi (leaves_expr? (ts.drop i))
  · intro fuel read x hx
    exact exists_moves hi (leaves_blockBody hx)
  · intro fuel x hx
    obtain ⟨j, hj⟩ := exists_moves hi (leaves_wholeLine (fun _ _ hy => leaves_blockBody hy) hx)
    refine ⟨j, hj, ?_⟩
    rintro heof y rfl
    exact hj.lt (length_wholeLine_blockBody_lt heof hx)
  · intro fuel hfuel
    have hleft : (ts.drop i).length < fuel := by
      rw [List.length_drop]
      exact hfuel
    refine ⟨?_, fun read => exists_blockBody read hleft⟩
    apply exists_wholeLine
    intro us hus
    exact exists_blockBody [] (by omega)

/-- The branch in `branchTokens` is read up to the end of the file, and not past it. -/
theorem branchTokens_read_up_to_end :
    wholeLine (blockBody 11 []) (branchTokens.drop 1) =
      some (.ok (some (.branch (.operand (.truth true)) [.call "f"]), branchTokens.drop 9)) ∧
    (∃ j, Moves branchTokens 1 j (branchTokens.drop 9) ∧ 1 < j) ∧
    (∃ x, blockBody 3 [] (branchTokens.drop 9) = some x) ∧
    ofTokensByDescent 12 branchTokens = some (Program.ofTokens branchTokens) := by
  have hread : wholeLine (blockBody 11 []) (branchTokens.drop 1) =
      some (.ok (some (.branch (.operand (.truth true)) [.call "f"]), branchTokens.drop 9)) := by
    rfl
  obtain ⟨hplaces, hprogram⟩ := reading_makes_progress branchTokens
  obtain ⟨j, hj, hlt⟩ := (hplaces 1 (by decide)).2.2.1 11 _ hread
  refine ⟨hread, ⟨j, hj, hlt (by decide) _ rfl⟩, ?_, hprogram 12 (by decide)⟩
  exact ((hplaces 9 (by decide)).2.2.2 3 (by decide)).2 []

end Grammar

end PiScript
