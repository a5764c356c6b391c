import PiScript.Proofs.Grammar.Reading

/-!
# The parser accepts exactly the grammar

`assemble` keeps open blocks on a stack where the grammar nests them. `Completes` says what the
grammar has to derive for a given stack: the rest of the innermost block, then the rest of the one
around it, and so on out to the program. `assemble_eq_ok_iff` is the agreement of the two.
-/

namespace PiScript

namespace Grammar

open Parse

/-! ## Steps of `assemble` -/

def resume (blocks : List OpenBlock) (read : List Stmt) (line : Line) (rest : List Token) :
    Except Failure Program :=
  match line with
  | .blank => assemble blocks read rest
  | .statement s => assemble blocks (s :: read) rest
  | .opening head => assemble (⟨head, read⟩ :: blocks) [] rest

-- `assemble` without the proofs that it ends: one equation for the end of the program, one for the
-- end of a block and one for any other line.
theorem assemble_eof_eq {ts : List Token} (h : headKind ts = .eof) (blocks : List OpenBlock)
    (read : List Stmt) :
    assemble blocks read ts =
      if blocks.isEmpty then .ok read.reverse else .error ⟨.unterminatedBlock, ts⟩ := by
  rw [assemble.eq_def, dif_pos h]

theorem assemble_close_eq {ts : List Token} (hkind : headKind ts = .endBlock) (block : OpenBlock)
    (outer : List OpenBlock) (read : List Stmt) :
    assemble (block :: outer) read ts =
      lineEnd ts.tail >>= fun rest => assemble outer (block.close read) rest := by
  rw [assemble.eq_def, dif_neg (by rw [hkind]; simp)]
  simp only [hkind]
  split
  all_goals
    rename_i hend
    rw [hend]
    rfl

theorem assemble_line_eq {ts : List Token} {blocks : List OpenBlock} (heof : headKind ts ≠ .eof)
    (hkind : headKind ts = .endBlock → blocks = []) (read : List Stmt) :
    assemble blocks read ts = readLine ts >>= fun x => resume blocks read x.1 x.2 := by
  rw [assemble.eq_def, dif_neg heof]
  split
  · rename_i hend
    exact absurd (hkind hend) (by simp)
  · split
    all_goals
      rename_i hline
      rw [hline]
      rfl

theorem closes_or_not (ts : List Token) (blocks : List OpenBlock) :
    (headKind ts = .endBlock ∧ ∃ block outer, blocks = block :: outer) ∨
    (headKind ts = .endBlock → blocks = []) := by
  cases blocks with
  | nil => exact .inr fun _ => rfl
  | cons block outer =>
    by_cases hkind : headKind ts = .endBlock
    · exact .inl ⟨hkind, block, outer, rfl⟩
    · exact .inr fun h => absurd h hkind

theorem assemble_eof {ts : List Token} (h : headKind ts = .eof) (read : List Stmt) :
    assemble [] read ts = .ok read.reverse := by
  rw [assemble_eof_eq h]
  rfl

theorem assemble_close {ts rest : List Token} (hkind : headKind ts = .endBlock)
    (hend : lineEnd ts.tail = .ok rest) (block : OpenBlock) (outer : List OpenBlock)
    (read : List Stmt) :
    assemble (block :: outer) read ts = assemble outer (block.close read) rest := by
  rw [assemble_close_eq hkind, hend]
  rfl

theorem assemble_line {ts rest : List Token} {line : Line} {blocks : List OpenBlock}
    (heof : headKind ts ≠ .eof) (hkind : headKind ts = .endBlock → blocks = [])
    (hline : readLine ts = .ok (line, rest)) (read : List Stmt) :
    assemble blocks read ts = resume blocks read line rest := by
  rw [assemble_line_eq heof hkind, hline]
  rfl

/-- Everything that a successful step can be. -/
theorem assemble_cases {blocks : List OpenBlock} {read : List Stmt} {ts : List Token}
    {p : Program} (h : assemble blocks read ts = .ok p) :
    (headKind ts = .eof ∧ blocks = [] ∧ p = read.reverse) ∨
    (headKind ts = .endBlock ∧ ∃ block outer rest, blocks = block :: outer ∧
      lineEnd ts.tail = .ok rest ∧ assemble outer (block.close read) rest = .ok p) ∨
    (headKind ts ≠ .eof ∧ (headKind ts = .endBlock → blocks = []) ∧ ∃ line rest,
      readLine ts = .ok (line, rest) ∧ resume blocks read line rest = .ok p) := by
  by_cases heof : headKind ts = .eof
  · left
    rw [assemble_eof_eq heof] at h
    split at h
    · rename_i hempty
      cases h
      exact ⟨heof, List.isEmpty_iff.mp hempty, rfl⟩
    · cases h
  · right
    rcases closes_or_not ts blocks with ⟨hkind, block, outer, rfl⟩ | hkind
    · rw [assemble_close_eq hkind] at h
      obtain ⟨rest, hend, hrest⟩ := exists_of_bind_eq_ok h
      exact .inl ⟨hkind, block, outer, rest, rfl, hend, hrest⟩
    · rw [assemble_line_eq heof hkind] at h
      obtain ⟨⟨line, rest⟩, hline, hrest⟩ := exists_of_bind_eq_ok h
      exact .inr ⟨heof, hkind, line, rest, hline, hrest⟩

/-! ## First tokens -/

def SimpleLine.firstKind : SimpleLine → TokenKind
  | .empty _ => .lineEnd
  | .stray w => .operator w.op
  | .inclusion .. => .dashes
  | .print .. => .operand
  | .declare .. => .declare
  | .call .. => .call

def Opening.firstKind : Opening → TokenKind
  | .forEach .. => .forEach
  | .loop .. => .loop
  | .branch .. => .branch
  | .define .. => .stars

@[simp]
theorem SimpleLine.headKind_tokens (l : SimpleLine) (rest : List Token) :
    headKind (l.tokens ++ rest) = l.firstKind := by
  cases l <;> simp [tokens, firstKind]

@[simp]
theorem Opening.headKind_tokens (o : Opening) (rest : List Token) :
    headKind (o.tokens ++ rest) = o.firstKind := by
  cases o <;> simp [tokens, firstKind]

/-! ## Assembling what a tree derives -/

theorem assemble_simple (blocks : List OpenBlock) (read : List Stmt) (l : SimpleLine)
    (rest : List Token) :
    assemble blocks read (l.tokens ++ rest) =
      assemble blocks (l.statement?.toList.reverse ++ read) rest := by
  have heof : headKind (l.tokens ++ rest) ≠ .eof := by
    rw [l.headKind_tokens]
    cases l <;> simp [SimpleLine.firstKind]
  have hend : headKind (l.tokens ++ rest) ≠ .endBlock := by
    rw [l.headKind_tokens]
    cases l <;> simp [SimpleLine.firstKind]
  rw [assemble_line heof (fun h => absurd h hend) (readLine_simple l rest)]
  cases l.statement? <;> rfl

theorem assemble_opening (blocks : List OpenBlock) (read : List Stmt) (o : Opening)
    (rest : List Token) :
    assemble blocks read (o.tokens ++ rest) = assemble (⟨o.head, read⟩ :: blocks) [] rest := by
  have heof : headKind (o.tokens ++ rest) ≠ .eof := by
    rw [o.headKind_tokens]
    cases o <;> simp [Opening.firstKind]
  have hend : headKind (o.tokens ++ rest) ≠ .endBlock := by
    rw [o.headKind_tokens]
    cases o <;> simp [Opening.firstKind]
  rw [assemble_line heof (fun h => absurd h hend) (readLine_opening o rest)]
  rfl

theorem assemble_strayEnd (read : List Stmt) (w : Word .endBlock) (rest : List Token) :
    assemble [] read (w.token :: rest) = assemble [] read rest := by
  have hline : readLine (w.token :: rest) = .ok (.blank, rest) := by
    simp [readLine]
  rw [assemble_line (by simp) (fun _ => rfl) hline]
  rfl

theorem assemble_endBlock (block : OpenBlock) (outer : List OpenBlock) (read : List Stmt)
    (close : Word .endBlock) (stop : Word .lineEnd) (rest : List Token) :
    assemble (block :: outer) read (close.token :: stop.token :: rest) =
      assemble outer (block.close read) rest := by
  have hkind : headKind (close.token :: stop.token :: rest) = .endBlock := close.kind_token
  exact assemble_close hkind (lineEnd_word stop rest) block outer read

/-- Which stacks of open blocks a line at a given place can meet. -/
def Place.Allows : Place → List OpenBlock → Prop
  | .outside, blocks => blocks = []
  | .inside, blocks => blocks ≠ []

mutual

/-- The tokens of a line add what the line builds to the statements of the open block. -/
theorem assemble_lineTree {place : Place} (l : LineTree place) (blocks : List OpenBlock)
    (hplace : place.Allows blocks) (read : List Stmt) (rest : List Token) :
    assemble blocks read (l.tokens ++ rest) = assemble blocks (l.program.reverse ++ read) rest := by
  match l with
  | .simple l =>
    simp only [LineTree.tokens, LineTree.program]
    exact assemble_simple blocks read l rest
  | .strayEnd w =>
    -- Outside every block, so the end of one is passed over.
    cases hplace
    simp only [LineTree.tokens, LineTree.program]
    exact assemble_strayEnd read w rest
  | .block opening body close stop =>
    simp only [LineTree.tokens, LineTree.program, List.append_assoc]
    rw [assemble_opening, assemble_linesTree body _ (by simp [Place.Allows])]
    simp only [List.cons_append, List.nil_append, List.append_nil]
    rw [assemble_endBlock]
    simp [OpenBlock.close]

theorem assemble_linesTree {place : Place} (ls : LinesTree place) (blocks : List OpenBlock)
    (hplace : place.Allows blocks) (read : List Stmt) (rest : List Token) :
    assemble blocks read (ls.tokens ++ rest) =
      assemble blocks (ls.program.reverse ++ read) rest := by
  match ls with
  | .nil => simp [LinesTree.tokens, LinesTree.program]
  | .cons l ls =>
    simp only [LinesTree.tokens, LinesTree.program, List.append_assoc, List.reverse_append]
    rw [assemble_lineTree l blocks hplace, assemble_linesTree ls blocks hplace]

end

/-! ## A tree for what was assembled -/

/-- The grammar derives `ts` up to its end of file as the rest of the open blocks, innermost first,
and of the program around them, behind the statements `read` and with the program `p` as a
result. -/
def Completes : List OpenBlock → List Stmt → List Token → Program → Prop
  | [], read, ts, p =>
    ∃ ls : ProgramTree, ls.tokens = beforeEnd ts ∧ read.reverse ++ ls.program = p
  | block :: outer, read, ts, p =>
    ∃ (ls : LinesTree .inside) (close : Word .endBlock) (stop : Word .lineEnd) (rest : List Token),
      ts = ls.tokens ++ close.token :: stop.token :: rest ∧
        Completes outer (block.close (ls.program.reverse ++ read)) rest p

theorem beforeEnd_append {us : List Token} (h : ∀ t ∈ us, t.kind ≠ .eof) (ts : List Token) :
    beforeEnd (us ++ ts) = us ++ beforeEnd ts :=
  List.takeWhile_append_of_pos (by simpa using h)

theorem beforeEnd_of_eof {ts : List Token} (h : headKind ts = .eof) : beforeEnd ts = [] := by
  cases ts with
  | nil => rfl
  | cons t ts => exact List.takeWhile_cons_of_neg (by simpa using h)

theorem exists_end (ts : List Token) :
    ∃ rest, ts = beforeEnd ts ++ rest ∧ headKind rest = .eof := by
  refine ⟨ts.dropWhile (·.kind ≠ .eof), List.takeWhile_append_dropWhile.symm, ?_⟩
  have hhead := List.head?_dropWhile_not (fun t : Token => decide (t.kind ≠ .eof)) ts
  cases hdrop : ts.dropWhile (fun t : Token => decide (t.kind ≠ .eof)) with
  | nil => rfl
  | cons t rest =>
    rw [hdrop] at hhead
    simpa using hhead

/-! ## Tokens that derivations hold -/

/-- The tokens are neither ends of file nor malformed words. -/
def Proper (ts : List Token) : Prop :=
  ∀ t ∈ ts, t.kind ≠ .eof ∧ t.kind ≠ .malformed

@[simp]
theorem proper_nil : Proper [] := by
  simp [Proper]

@[simp]
theorem proper_cons (t : Token) (ts : List Token) :
    Proper (t :: ts) ↔ (t.kind ≠ .eof ∧ t.kind ≠ .malformed) ∧ Proper ts := by
  simp [Proper]

@[simp]
theorem proper_append (ts us : List Token) : Proper (ts ++ us) ↔ Proper ts ∧ Proper us := by
  exact List.forall_mem_append

@[simp]
theorem ExprTree.proper_tokens (e : ExprTree) : Proper e.tokens := by
  cases e <;> simp [tokens]

@[simp]
theorem SimpleLine.proper_tokens (l : SimpleLine) : Proper l.tokens := by
  cases l with
  | declare keyword name separator init stop => cases init <;> simp [tokens]
  | _ => simp [tokens]

@[simp]
theorem Opening.proper_tokens (o : Opening) : Proper o.tokens := by
  cases o <;> simp [tokens]

mutual

theorem LineTree.proper_tokens {place : Place} (l : LineTree place) : Proper l.tokens := by
  match l with
  | .simple l => simp [LineTree.tokens]
  | .strayEnd w => simp [LineTree.tokens]
  | .block opening body close stop =>
    have hbody := body.proper_tokens
    simp [LineTree.tokens, hbody]

theorem LinesTree.proper_tokens {place : Place} (ls : LinesTree place) : Proper ls.tokens := by
  match ls with
  | .nil => simp [LinesTree.tokens]
  | .cons l ls =>
    have hl := l.proper_tokens
    have hls := ls.proper_tokens
    simp [LinesTree.tokens, hl, hls]

end

/-! ## Soundness and completeness -/

theorem Completes.cons {place : Place} {blocks : List OpenBlock} {read : List Stmt}
    {ts : List Token} {p : Program} (hplace : place.Allows blocks) (l : LineTree place)
    (h : Completes blocks (l.program.reverse ++ read) ts p) :
    Completes blocks read (l.tokens ++ ts) p := by
  cases place with
  | outside =>
    obtain rfl : blocks = [] := hplace
    obtain ⟨ls, htokens, rfl⟩ := h
    refine ⟨.cons l ls, ?_, by simp [LinesTree.program]⟩
    have hl : ∀ t ∈ l.tokens, t.kind ≠ .eof := fun t ht => (l.proper_tokens t ht).1
    rw [beforeEnd_append hl, LinesTree.tokens, htokens]
  | inside =>
    cases blocks with
    | nil => exact absurd rfl hplace
    | cons block outer =>
      obtain ⟨ls, close, stop, rest, rfl, h⟩ := h
      refine ⟨.cons l ls, close, stop, rest, by simp [LinesTree.tokens], ?_⟩
      simpa [LinesTree.program] using h

theorem exists_allows (blocks : List OpenBlock) : ∃ place : Place, place.Allows blocks := by
  cases blocks with
  | nil => exact ⟨.outside, rfl⟩
  | cons block outer => exact ⟨.inside, by simp [Place.Allows]⟩

theorem Completes.simple {blocks : List OpenBlock} {read : List Stmt} {ts : List Token}
    {p : Program} (l : SimpleLine)
    (h : Completes blocks (l.statement?.toList.reverse ++ read) ts p) :
    Completes blocks read (l.tokens ++ ts) p := by
  obtain ⟨place, hplace⟩ := exists_allows blocks
  have hcons : Completes blocks read ((LineTree.simple l : LineTree place).tokens ++ ts) p := by
    apply Completes.cons hplace
    rwa [LineTree.program]
  rwa [LineTree.tokens] at hcons

theorem Completes.strayEnd {read : List Stmt} {ts : List Token} {p : Program}
    (w : Word .endBlock) (h : Completes [] read ts p) :
    Completes [] read (w.token :: ts) p := by
  have hcons : Completes [] read ((LineTree.strayEnd w).tokens ++ ts) p := by
    apply Completes.cons (show Place.outside.Allows [] from rfl)
    rwa [LineTree.program]
  rwa [LineTree.tokens] at hcons

/-- An opened block together with its rest is one line of the block around it. -/
theorem Completes.opening {blocks : List OpenBlock} {read : List Stmt} {ts : List Token}
    {p : Program} (o : Opening) (h : Completes (⟨o.head, read⟩ :: blocks) [] ts p) :
    Completes blocks read (o.tokens ++ ts) p := by
  obtain ⟨ls, close, stop, rest, rfl, h⟩ := h
  obtain ⟨place, hplace⟩ := exists_allows blocks
  have hcons : Completes blocks read
      ((LineTree.block o ls close stop : LineTree place).tokens ++ rest) p := by
    apply Completes.cons hplace
    simpa [LineTree.program, OpenBlock.close] using h
  simpa [LineTree.tokens] using hcons

/-- Whatever is assembled is derived. -/
theorem completes_of_assemble {blocks : List OpenBlock} {read : List Stmt} {ts : List Token}
    {p : Program} (hmal : ∀ t ∈ ts, t.kind ≠ .malformed) (h : assemble blocks read ts = .ok p) :
    Completes blocks read ts p := by
  -- The induction is on the number of tokens: every step takes at least one.
  induction hn : ts.length using Nat.strongRecOn generalizing blocks read ts with
  | ind n ih =>
    subst hn
    rcases assemble_cases h with ⟨heof, rfl, rfl⟩ | ⟨hkind, block, outer, rest, rfl, hend, h⟩ |
      ⟨heof, hkind, line, rest, hline, h⟩
    -- The end of the program: nothing is left to derive.
    · exact ⟨.nil, (beforeEnd_of_eof heof).symm, by simp [LinesTree.program]⟩
    -- The end of the innermost block, whose rest has no lines.
    · obtain ⟨close, hts⟩ := exists_word hkind (by simp)
      obtain ⟨stop, htail⟩ := exists_of_lineEnd hend
      rw [htail] at hts
      have hlt : rest.length < ts.length := by
        rw [hts]
        simp only [List.length_cons]
        omega
      have hrest : ∀ t ∈ rest, t.kind ≠ .malformed := fun t ht => hmal t (by simp [hts, ht])
      exact ⟨.nil, close, stop, rest, hts, ih _ hlt hrest h rfl⟩
    -- Any other line is put in front of the derivation of what follows it.
    · have hlt := length_readLine_lt heof hline
      have hfirst : headKind ts ≠ .malformed := by
        cases ts with
        | nil => exact absurd rfl heof
        | cons t ts => exact hmal t (by simp)
      rcases readLine_cases heof hfirst hline with ⟨l, rfl, rfl⟩ | ⟨o, rfl, rfl⟩ | ⟨w, rfl, rfl⟩
      · have hrest : ∀ t ∈ rest, t.kind ≠ .malformed := fun t ht => hmal t (by simp [ht])
        have hstep : assemble blocks (l.statement?.toList.reverse ++ read) rest = .ok p := by
          rw [← assemble_simple, assemble_line heof hkind hline, h]
        exact Completes.simple l (ih _ hlt hrest hstep rfl)
      · have hrest : ∀ t ∈ rest, t.kind ≠ .malformed := fun t ht => hmal t (by simp [ht])
        exact Completes.opening o (ih _ hlt hrest h rfl)
      · have hrest : ∀ t ∈ rest, t.kind ≠ .malformed := fun t ht => hmal t (by simp [ht])
        obtain rfl : blocks = [] := hkind w.kind_token
        exact Completes.strayEnd w (ih _ hlt hrest h rfl)

/-- Whatever is derived is assembled. -/
theorem assemble_of_completes {blocks : List OpenBlock} {read : List Stmt} {ts : List Token}
    {p : Program} (h : Completes blocks read ts p) : assemble blocks read ts = .ok p := by
  -- From the inside out: the lines of a block and its end leave the block around it.
  induction blocks generalizing read ts with
  | nil =>
    obtain ⟨ls, htokens, rfl⟩ := h
    obtain ⟨rest, hts, hend⟩ := exists_end ts
    rw [hts, ← htokens, assemble_linesTree ls [] rfl, assemble_eof hend]
    simp
  | cons block outer ih =>
    obtain ⟨ls, close, stop, rest, rfl, h⟩ := h
    rw [assemble_linesTree ls _ (by simp [Place.Allows]), assemble_endBlock]
    exact ih h

theorem assemble_eq_ok_iff {blocks : List OpenBlock} {read : List Stmt} {ts : List Token}
    {p : Program} (hmal : ∀ t ∈ ts, t.kind ≠ .malformed) :
    assemble blocks read ts = .ok p ↔ Completes blocks read ts p :=
  ⟨completes_of_assemble hmal, assemble_of_completes⟩

end Grammar

end PiScript
