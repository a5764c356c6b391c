import PiScript.Proofs.Grammar.Text
import PiScript.Proofs.Value.Literal

/-!
# Reading source texts again

Writing a program out and reading the text gives the program back, and every program that any text
writes can be written out. The way to the first is a derivation that is spelled like the source
text; the way to the second is that the tokens of a text hold no blanks.
-/

namespace PiScript

namespace Grammar

open Token

/-! ## Derivations of source texts -/

def stopWord : Word .lineEnd :=
  ⟨wordToken "3.", by decide +kernel⟩

def endWord : Word .endBlock :=
  ⟨wordToken "3.14159265", by decide +kernel⟩

def declareWord : Word .declare :=
  ⟨wordToken "3.1", by decide +kernel⟩

def callWord : Word .call :=
  ⟨wordToken "3.1415926535", by decide +kernel⟩

def inclusionWord : Word .dashes :=
  ⟨wordToken "--", by decide +kernel⟩

def forEachWord : Word .forEach :=
  ⟨wordToken "3.141592653", by decide +kernel⟩

def loopWord : Word .loop :=
  ⟨wordToken "3.141", by decide +kernel⟩

def branchWord : Word .branch :=
  ⟨wordToken "3.14", by decide +kernel⟩

def defineWord : Word .stars :=
  ⟨wordToken "**", by decide +kernel⟩

def Word.ofValue (v : Value) : Word .operand :=
  ⟨wordToken v.literal, specifiedKind_nameWord v.inner⟩

def NameWord.ofName {s : String} (h : IsName s) : NameWord :=
  ⟨wordToken (nameWord s), s, specifiedKind_nameWord s, Value.ofLiteral_name h⟩

def OperatorWord.ofOperator (op : Operator) : OperatorWord :=
  ⟨wordToken op.word, op, by cases op <;> decide +kernel⟩

namespace ExprTree

def ofExpr : Expr → ExprTree
  | .operand v => .operand (.ofValue v)
  | .binary op left right => .binary (.ofValue left) (.ofOperator op) (.ofValue right)

theorem tokens_ofExpr (e : Expr) : (ofExpr e).tokens = e.words.map wordToken := by
  cases e <;> rfl

theorem same_ofExpr {e : Expr} (h : e.WellFormed) : e.Same (ofExpr e).expr := by
  cases e with
  | operand v => exact .operand (Value.same_ofLiteral_literal h)
  | binary op left right =>
    exact .binary op (Value.same_ofLiteral_literal h.1) (Value.same_ofLiteral_literal h.2)

theorem tokens_optional (e : Option Expr) :
    ((e.map ofExpr).map tokens).getD [] = (optionalWords e).map wordToken := by
  cases e with
  | none => rfl
  | some e => exact tokens_ofExpr e

theorem same_optional {e : Option Expr} (h : ∀ x ∈ e, x.WellFormed) :
    Option.Rel Expr.Same e ((e.map ofExpr).map expr) := by
  cases e with
  | none => exact .none
  | some e => exact .some (same_ofExpr (h e rfl))

end ExprTree

theorem tokens_block {place : Place} {o : Opening} {first : List String}
    {ls : LinesTree .inside} {body : Program} (ho : o.tokens = first.map wordToken)
    (hls : ls.tokens = (Program.lines body).flatten.map wordToken) :
    (LineTree.block o ls endWord stopWord : LineTree place).tokens =
      (first :: (Program.lines body ++ [blockEnd])).flatten.map wordToken := by
  rw [LineTree.tokens, ho, hls, List.flatten_cons, List.flatten_append, List.map_append,
    List.map_append]
  rfl

mutual

/-- A statement that can be written has a line that is spelled as it is written. -/
theorem exists_lineTree (place : Place) {s : Stmt} (h : s.WellFormed) :
    ∃ (l : LineTree place) (s' : Stmt),
      l.tokens = s.lines.flatten.map wordToken ∧ l.program = [s'] ∧ s.Same s' := by
  match s with
  | .inclusion path =>
    exact ⟨.simple (.inclusion inclusionWord (.ofName h) stopWord), _,
      rfl, rfl, .inclusion path⟩
  | .print e =>
    obtain ⟨x, rfl, hx⟩ := h
    refine ⟨.simple (.print (.ofExpr x) stopWord), _, ?_, rfl,
      .print (.some (ExprTree.same_ofExpr hx))⟩
    show (ExprTree.ofExpr x).tokens ++ [stopWord.token] = [x.words ++ ["3."]].flatten.map wordToken
    rw [ExprTree.tokens_ofExpr, List.flatten_singleton, List.map_append]
    rfl
  | .declare name init =>
    obtain ⟨hname, hinit⟩ := h
    refine ⟨.simple (.declare declareWord (.ofName hname) declareWord (init.map .ofExpr) stopWord),
      _, ?_, rfl, .declare name (ExprTree.same_optional hinit)⟩
    rw [LineTree.tokens, SimpleLine.tokens, ExprTree.tokens_optional, Stmt.lines,
      List.flatten_singleton, List.map_cons, List.map_cons, List.map_cons, List.map_append]
    rfl
  -- A block is written inside out: the derivation of its body is that of a program.
  | .forEach source item body =>
    obtain ⟨hsource, hitem, hbody⟩ := h
    obtain ⟨ls, hls, hsame⟩ := exists_linesTree .inside hbody
    exact ⟨.block (.forEach forEachWord (.ofName hsource)
      (.ofName hitem) stopWord) ls endWord stopWord, _, tokens_block rfl hls, rfl,
      .forEach source item hsame⟩
  | .loop cond step body =>
    obtain ⟨hcond, hstep, hbody⟩ := h
    obtain ⟨ls, hls, hsame⟩ := exists_linesTree .inside hbody
    refine ⟨.block (.loop loopWord (.ofExpr cond) (.ofExpr step)
      stopWord) ls endWord stopWord, _, tokens_block ?_ hls, rfl,
      .loop (ExprTree.same_ofExpr hcond) (ExprTree.same_ofExpr hstep) hsame⟩
    rw [Opening.tokens, ExprTree.tokens_ofExpr, ExprTree.tokens_ofExpr, List.map_cons,
      List.map_append, List.map_append]
    rfl
  | .branch cond body =>
    obtain ⟨hcond, hbody⟩ := h
    obtain ⟨ls, hls, hsame⟩ := exists_linesTree .inside hbody
    refine ⟨.block (.branch branchWord (.ofExpr cond) stopWord) ls
      endWord stopWord, _, tokens_block ?_ hls, rfl, .branch (ExprTree.same_ofExpr hcond) hsame⟩
    rw [Opening.tokens, ExprTree.tokens_ofExpr, List.map_cons, List.map_append]
    rfl
  | .define name body =>
    obtain ⟨hname, hbody⟩ := h
    obtain ⟨ls, hls, hsame⟩ := exists_linesTree .inside hbody
    exact ⟨.block (.define defineWord (.ofName hname) stopWord) ls
      endWord stopWord, _, tokens_block rfl hls, rfl, .define name hsame⟩
  | .call name =>
    exact ⟨.simple (.call callWord (.ofName h) stopWord), _, rfl, rfl, .call name⟩

theorem exists_linesTree (place : Place) {p : List Stmt} (h : Program.WellFormed p) :
    ∃ ls : LinesTree place,
      ls.tokens = (Program.lines p).flatten.map wordToken ∧ Program.Same p ls.program := by
  match p with
  | [] => exact ⟨.nil, rfl, .nil⟩
  | s :: rest =>
    obtain ⟨l, s', hl, hs', hsame⟩ := exists_lineTree place h.1
    obtain ⟨ls, hls, hrest⟩ := exists_linesTree place h.2
    refine ⟨.cons l ls, ?_, ?_⟩
    · rw [LinesTree.tokens, hl, hls, Program.lines, List.flatten_append, List.map_append]
    · rw [LinesTree.program, hs']
      exact .cons hsame hrest

end

/-! ## The words of source texts -/

theorem legible_nameWord {s : String} (h : ∀ c ∈ s.toList, Text.isBlank c = false) :
    Legible (nameWord s) := by
  rw [Legible, specifiedKind_nameWord, toList_nameWord]
  refine ⟨⟨by simp, ?_⟩, rfl, by simp⟩
  -- The plus signs are not blank.
  intro c hc
  rcases List.mem_cons.mp hc with rfl | hc
  · decide
  · rcases List.mem_append.mp hc with hc | hc
    · exact h c hc
    · rw [List.mem_singleton.mp hc]
      decide

theorem legible_keyword : ∀ entry ∈ keywordTable, Legible entry.1 := by
  decide +kernel

theorem legible_stop : Legible "3." :=
  legible_keyword ("3.", .lineEnd) (by simp [keywordTable])

theorem legible_closed {ws : List String} (h : ∀ w ∈ ws, Legible w) :
    ∀ w ∈ ws ++ ["3."], Legible w := by
  rw [List.forall_mem_append]
  exact ⟨h, by simp [legible_stop]⟩

theorem legible_blockEnd : ∀ w ∈ blockEnd, Legible w := by
  decide +kernel

theorem legible_operator (op : Operator) : Legible op.word := by
  apply legible_keyword (op.word, .operator op)
  cases op <;> simp [keywordTable, Operator.word]

theorem legible_words {e : Expr} (h : e.WellFormed) : ∀ w ∈ e.words, Legible w := by
  cases e with
  | operand v =>
    intro w hw
    rw [List.mem_singleton.mp hw]
    exact legible_nameWord (Value.not_blank_inner h)
  | binary op left right =>
    have hleft : Legible left.literal := legible_nameWord (Value.not_blank_inner h.1)
    have hright : Legible right.literal := legible_nameWord (Value.not_blank_inner h.2)
    simp [Expr.words, hleft, hright, legible_operator]

theorem legible_optionalWords {e : Option Expr} (h : ∀ x ∈ e, x.WellFormed) :
    ∀ w ∈ optionalWords e, Legible w := by
  cases e with
  | none => simp [optionalWords]
  | some e => exact legible_words (h e rfl)

/-- Only the first line of a block needs a look of its own. -/
theorem legible_block {first : List String} {body : Program} (hfirst : ∀ w ∈ first, Legible w)
    (hbody : ∀ ws ∈ Program.lines body, ∀ w ∈ ws, Legible w) :
    ∀ ws ∈ first :: (Program.lines body ++ [blockEnd]), ∀ w ∈ ws, Legible w := by
  intro ws hws
  rcases List.mem_cons.mp hws with rfl | hws
  · exact hfirst
  · rcases List.mem_append.mp hws with hws | hws
    · exact hbody ws hws
    · rw [List.mem_singleton.mp hws]
      exact legible_blockEnd

mutual

theorem legible_stmtLines {s : Stmt} (h : s.WellFormed) :
    ∀ ws ∈ s.lines, ∀ w ∈ ws, Legible w := by
  match s with
  | .inclusion path =>
    have hmarker : Legible "--" := by decide +kernel
    simp [Stmt.lines, hmarker, legible_nameWord h.not_blank, legible_stop]
  | .print e =>
    obtain ⟨x, rfl, hx⟩ := h
    rw [Stmt.lines, List.forall_mem_singleton]
    exact legible_closed (legible_words hx)
  | .declare name init =>
    have hkey : Legible "3.1" := by decide +kernel
    have hinit := legible_closed (legible_optionalWords h.2)
    rw [Stmt.lines, List.forall_mem_singleton]
    simp only [List.forall_mem_cons]
    exact ⟨hkey, legible_nameWord h.1.not_blank, hkey, hinit⟩
  | .forEach source item body =>
    have hkey : Legible "3.141592653" := by decide +kernel
    refine legible_block ?_ (legible_lines h.2.2)
    simp [hkey, legible_nameWord h.1.not_blank, legible_nameWord h.2.1.not_blank, legible_stop]
  | .loop cond step body =>
    have hkey : Legible "3.141" := by decide +kernel
    refine legible_block ?_ (legible_lines h.2.2)
    rw [List.forall_mem_cons, List.forall_mem_append]
    exact ⟨hkey, legible_words h.1, legible_closed (legible_words h.2.1)⟩
  | .branch cond body =>
    have hkey : Legible "3.14" := by decide +kernel
    refine legible_block ?_ (legible_lines h.2)
    rw [List.forall_mem_cons]
    exact ⟨hkey, legible_closed (legible_words h.1)⟩
  | .define name body =>
    have hmarker : Legible "**" := by decide +kernel
    refine legible_block ?_ (legible_lines h.2)
    simp [hmarker, legible_nameWord h.1.not_blank, legible_stop]
  | .call name =>
    have hkey : Legible "3.1415926535" := by decide +kernel
    simp [Stmt.lines, hkey, legible_nameWord h.not_blank, legible_stop]

theorem legible_lines {p : List Stmt} (h : Program.WellFormed p) :
    ∀ ws ∈ Program.lines p, ∀ w ∈ ws, Legible w := by
  match p with
  | [] => simp [Program.lines]
  | s :: rest =>
    rw [Program.lines, List.forall_mem_append]
    exact ⟨legible_stmtLines h.1, legible_lines h.2⟩

end

/-- Reading the source text of a program gives the program. -/
theorem ofText_source {p : Program} (h : Program.WellFormed p) :
    ∃ q, Program.ofText p.source = .ok q ∧ Program.Same p q := by
  obtain ⟨d, hd, hsame⟩ := exists_linesTree .outside h
  refine ⟨d.program, ofText_eq_ok_iff.mpr ⟨d, ?_, rfl⟩, hsame⟩
  rw [hd, Program.source, textSpelling_lines (legible_lines h)]

example :
    Program.source
      [.branch (.binary .equal (.text "x") (.number ⟨-125, 2⟩))
        [.print (some (.operand (.number ⟨5, -2⟩)))],
       .declare "//" none] =
    "3.14 +x+ 3.14159265358 +-1.25+ 3.\n+500+ 3.\n3.14159265 3.\n3.1 +//+ 3.1 3." := by
  decide +kernel

/-! ## Programs of texts -/

def NoBlanks (ts : List Token) : Prop :=
  ∀ t ∈ ts, ∀ c ∈ t.text.toList, Text.isBlank c = false

@[simp]
theorem noBlanks_cons (t : Token) (ts : List Token) :
    NoBlanks (t :: ts) ↔ (∀ c ∈ t.text.toList, Text.isBlank c = false) ∧ NoBlanks ts :=
  List.forall_mem_cons

@[simp]
theorem noBlanks_append (ts us : List Token) :
    NoBlanks (ts ++ us) ↔ NoBlanks ts ∧ NoBlanks us :=
  List.forall_mem_append

theorem noBlanks_of_spelling {ts : List Token} {cs : List Char}
    (h : ts.map spelling = textSpelling cs) : NoBlanks ts := by
  intro t ht
  have hmem : t.spelling ∈ textSpelling cs := by
    rw [← h]
    exact List.mem_map_of_mem ht
  obtain ⟨word, hword, hspell⟩ := isWord_of_mem_textSpelling hmem
  have htext : t.text = String.ofList word := congrArg Prod.snd hspell
  rw [htext, String.toList_ofList]
  exact hword.2

theorem NameWord.isName_name (n : NameWord)
    (h : ∀ c ∈ n.token.text.toList, Text.isBlank c = false) : IsName n.name := by
  -- The operand decodes to a text, and a text that can be written is a name.
  have hvalue := Value.wellFormed_ofLiteral h
  rw [n.decodes] at hvalue
  exact hvalue

theorem ExprTree.wellFormed_expr (e : ExprTree) (h : NoBlanks e.tokens) : e.expr.WellFormed := by
  cases e with
  | operand v => exact Value.wellFormed_ofLiteral (h v.token (by simp [tokens]))
  | binary left op right =>
    exact ⟨Value.wellFormed_ofLiteral (h left.token (by simp [tokens])),
      Value.wellFormed_ofLiteral (h right.token (by simp [tokens]))⟩

theorem SimpleLine.wellFormed_statement (l : SimpleLine) (h : NoBlanks l.tokens) :
    Program.WellFormed l.statement?.toList := by
  cases l with
  | empty stop => trivial
  | stray w => trivial
  | inclusion marker path stop =>
    simp only [tokens, noBlanks_cons] at h
    exact ⟨path.isName_name h.2.1, trivial⟩
  | print e stop =>
    simp only [tokens, noBlanks_append] at h
    exact ⟨⟨e.expr, rfl, e.wellFormed_expr h.1⟩, trivial⟩
  | declare keyword name separator init stop =>
    simp only [tokens, noBlanks_cons, noBlanks_append] at h
    refine ⟨⟨name.isName_name h.2.1, ?_⟩, trivial⟩
    intro x hx
    obtain ⟨e, rfl, rfl⟩ := Option.map_eq_some_iff.mp hx
    exact e.wellFormed_expr h.2.2.2.1
  | call keyword name stop =>
    simp only [tokens, noBlanks_cons] at h
    exact ⟨name.isName_name h.2.1, trivial⟩

theorem Opening.wellFormed_toStmt (o : Opening) (h : NoBlanks o.tokens) {body : Program}
    (hbody : Program.WellFormed body) : (o.head.toStmt body).WellFormed := by
  cases o with
  | forEach keyword source item stop =>
    simp only [tokens, noBlanks_cons] at h
    exact ⟨source.isName_name h.2.1, item.isName_name h.2.2.1, hbody⟩
  | loop keyword cond step stop =>
    simp only [tokens, noBlanks_cons, noBlanks_append] at h
    exact ⟨cond.wellFormed_expr h.2.1, step.wellFormed_expr h.2.2.1, hbody⟩
  | branch keyword cond stop =>
    simp only [tokens, noBlanks_cons, noBlanks_append] at h
    exact ⟨cond.wellFormed_expr h.2.1, hbody⟩
  | define marker name stop =>
    simp only [tokens, noBlanks_cons] at h
    exact ⟨name.isName_name h.2.1, hbody⟩

theorem wellFormed_append {p q : List Stmt} (hp : Program.WellFormed p)
    (hq : Program.WellFormed q) : Program.WellFormed (p ++ q) := by
  induction p with
  | nil => exact hq
  | cons s p ih => exact ⟨hp.1, ih hp.2⟩

mutual

theorem LineTree.wellFormed_program {place : Place} (l : LineTree place)
    (h : NoBlanks l.tokens) : Program.WellFormed l.program := by
  match l with
  | .simple l => exact l.wellFormed_statement h
  | .strayEnd w => trivial
  | .block opening body close stop =>
    simp only [LineTree.tokens, noBlanks_append] at h
    exact ⟨opening.wellFormed_toStmt h.1 (body.wellFormed_program h.2.1), trivial⟩

/-- What a derivation without blanks builds can be written out. -/
theorem LinesTree.wellFormed_program {place : Place} (ls : LinesTree place)
    (h : NoBlanks ls.tokens) : Program.WellFormed ls.program := by
  match ls with
  | .nil => trivial
  | .cons l ls =>
    simp only [LinesTree.tokens, noBlanks_append] at h
    exact wellFormed_append (l.wellFormed_program h.1) (ls.wellFormed_program h.2)

end

theorem wellFormed_of_ofText {s : String} {p : Program} (h : Program.ofText s = .ok p) :
    Program.WellFormed p := by
  obtain ⟨d, hd, rfl⟩ := ofText_eq_ok_iff.mp h
  exact d.wellFormed_program (noBlanks_of_spelling hd)

/-- Programs that can be written out are read back from their source texts, and every program that
some text writes is one of them. -/
theorem source_round_trip :
    (∀ p : Program, Program.WellFormed p →
      ∃ q, Program.ofText p.source = .ok q ∧ Program.Same p q) ∧
    (∀ (s : String) (p : Program), Program.ofText s = .ok p →
      Program.WellFormed p ∧ ∃ q, Program.ofText p.source = .ok q ∧ Program.Same p q) := by
  refine ⟨fun p hp => ofText_source hp, ?_⟩
  intro s p h
  have hp := wellFormed_of_ofText h
  exact ⟨hp, ofText_source hp⟩

/-- A function with a loop and a branch, whose names look like keywords, numbers and comments. -/
def nestedProgram : Program :=
  [.define "3."
    [.loop (.binary .smaller (.text "+") (.number ⟨5, -2⟩))
        (.binary .add (.text "+") (.number ⟨-125, 2⟩))
      [.branch (.operand (.truth true)) [.print (some (.operand .null))]]],
   .declare "//" none]

theorem nestedProgram_round_trip :
    Program.WellFormed nestedProgram ∧
      ∃ q, Program.ofText nestedProgram.source = .ok q ∧ Program.Same nestedProgram q := by
  have hscale : (Decimal.minWord ≤ -2 ∧ -2 ≤ Decimal.maxWord) ∧
      Decimal.minWord ≤ 2 ∧ 2 ≤ Decimal.maxWord := by decide
  have hname : IsName "3." ∧ IsName "+" ∧ IsName "//" := by decide +kernel
  have h : Program.WellFormed nestedProgram := by
    simp only [nestedProgram, Program.WellFormed, Stmt.WellFormed, Expr.WellFormed]
    simp [hscale, hname, Value.WellFormed]
  exact ⟨h, source_round_trip.1 nestedProgram h⟩

end Grammar

end PiScript
