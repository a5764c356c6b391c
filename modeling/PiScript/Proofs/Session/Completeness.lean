import Mathlib.Algebra.Order.Ring.Int
import PiScript.Proofs.Grammar.Nesting
import PiScript.Proofs.Session.Turns

/-!
# Complete entries

A session runs its pending text once no more blocks start in it than end in it. Every program passes
that test, so a text that waits for more is never a program yet. The test only compares two totals:
an end of block that closes nothing makes up for a block that stays open. Where every end of block
follows a block to close, a text that passes the test has no open block.
-/

namespace PiScript

open Grammar

/-! ## Both totals and the count of open blocks -/

def opened (ts : List Token) : Nat :=
  ts.countP (·.kind.opensBlock)

def closed (ts : List Token) : Nat :=
  ts.countP (·.kind = .endBlock)

@[simp]
theorem opened_nil : opened [] = 0 :=
  rfl

@[simp]
theorem closed_nil : closed [] = 0 :=
  rfl

theorem opened_cons (t : Token) (ts : List Token) :
    opened (t :: ts) = opened ts + if t.kind.opensBlock then 1 else 0 :=
  List.countP_cons

theorem closed_cons (t : Token) (ts : List Token) :
    closed (t :: ts) = closed ts + if t.kind = .endBlock then 1 else 0 := by
  simp [closed, List.countP_cons]

theorem TokenKind.block_cases (k : TokenKind) :
    (k.opensBlock = true ∧ k ≠ .endBlock) ∨ k = .endBlock ∨
    (k.opensBlock = false ∧ k ≠ .endBlock) := by
  cases k <;> simp [opensBlock]

theorem TokenKind.opensBlock_endBlock : TokenKind.endBlock.opensBlock = false :=
  rfl

/-- An end of block that closes nothing counts among the ends all the same. -/
theorem opened_le_openBlocks (d : Nat) (ts : List Token) :
    d + opened ts ≤ openBlocks d ts + closed ts := by
  induction ts generalizing d with
  | nil => exact Nat.le_refl d
  | cons t ts ih =>
    have hrest := ih (nest d t.kind)
    rw [openBlocks_cons, opened_cons, closed_cons]
    rcases t.kind.block_cases with ⟨hopen, hend⟩ | hend | ⟨hopen, hend⟩
    · simp only [nest, hopen, hend, if_true, if_false] at hrest ⊢
      omega
    · simp only [nest, hend, TokenKind.opensBlock_endBlock, Bool.false_eq_true, if_true,
        if_false] at hrest ⊢
      omega
    · simp only [nest, hopen, hend, Bool.false_eq_true, if_false] at hrest ⊢
      omega

/-- If no end of block comes too early, the totals determine how many blocks are open. -/
theorem openBlocks_of_prefixes {d : Nat} {ts : List Token}
    (h : ∀ us, us <+: ts → closed us ≤ d + opened us) :
    openBlocks d ts + closed ts = d + opened ts := by
  induction ts generalizing d with
  | nil => rfl
  | cons t ts ih =>
    have hcons : ∀ us, us <+: ts → closed (t :: us) ≤ d + opened (t :: us) := fun us hus =>
      h (t :: us) ((List.prefix_cons_inj t).mpr hus)
    have hfirst := hcons [] List.nil_prefix
    rw [openBlocks_cons, opened_cons, closed_cons]
    simp only [opened_cons, closed_cons] at hcons hfirst
    rcases t.kind.block_cases with ⟨hopen, hend⟩ | hend | ⟨hopen, hend⟩
    · simp only [hopen, hend, if_true, if_false] at hcons ⊢
      have hcount := ih (d := d + 1) fun us hus => by have := hcons us hus; omega
      rw [nest, if_pos hopen]
      omega
    -- There is a block for this end to close.
    · simp only [hend, TokenKind.opensBlock_endBlock, Bool.false_eq_true, if_true, if_false,
        opened_nil, closed_nil] at hcons hfirst ⊢
      have hcount := ih (d := d - 1) fun us hus => by have := hcons us hus; omega
      have hnest : nest d .endBlock = d - 1 := rfl
      rw [hnest]
      omega
    · simp only [hopen, hend, Bool.false_eq_true, if_false] at hcons ⊢
      have hcount := ih (d := d) fun us hus => by have := hcons us hus; omega
      rw [nest, if_neg (by simp [hopen]), if_neg hend]
      omega

/-! ## A counter of 32 bits -/

theorem toInt_add_one {d : Int32} (h : d.toInt < 2 ^ 31 - 1) : (d + 1).toInt = d.toInt + 1 := by
  have hlow := d.le_toInt
  rw [Int32.toInt_add, Int32.toInt_one]
  exact Int.bmod_eq_of_le (by omega) (by omega)

theorem toInt_sub_one {d : Int32} (h : -2 ^ 31 < d.toInt) : (d - 1).toInt = d.toInt - 1 := by
  have hhigh := d.toInt_lt
  rw [Int32.toInt_sub, Int32.toInt_one]
  exact Int.bmod_eq_of_le (by omega) (by omega)

/-- The counter does not wrap around while it stays away from both bounds by the tokens to come. -/
theorem toInt_foldl_depthStep {d : Int32} {ts : List Token} (hlow : -2 ^ 31 < d.toInt - ts.length)
    (hhigh : d.toInt + ts.length < 2 ^ 31) :
    (ts.foldl (fun d t => depthStep d t.kind) d).toInt = d.toInt + opened ts - closed ts := by
  -- A token moves the counter by at most one, and leaves one token less to come.
  induction ts generalizing d with
  | nil => simp
  | cons t ts ih =>
    rw [List.length_cons] at hlow hhigh
    rw [List.foldl_cons, opened_cons, closed_cons]
    rcases t.kind.block_cases with ⟨hopen, hend⟩ | hend | ⟨hopen, hend⟩
    · have hstep : (depthStep d t.kind).toInt = d.toInt + 1 := by
        rw [depthStep, if_pos hopen]
        exact toInt_add_one (by omega)
      rw [ih (by omega) (by omega), hstep, if_pos hopen, if_neg hend]
      omega
    · have hopen : ¬t.kind.opensBlock = true := by
        rw [hend]
        decide
      have hstep : (depthStep d t.kind).toInt = d.toInt - 1 := by
        rw [depthStep, if_neg hopen, if_pos hend]
        exact toInt_sub_one (by omega)
      rw [ih (by omega) (by omega), hstep, if_neg hopen, if_pos hend]
      omega
    · have hopen : ¬t.kind.opensBlock = true := by simp [hopen]
      rw [depthStep, if_neg hopen, if_neg hend, if_neg hopen, if_neg hend,
        ih (by omega) (by omega)]
      rfl

theorem toInt_depth32 {ts : List Token} (hsize : ts.length < 2 ^ 31) :
    (depth32 ts).toInt = (opened ts : Int) - closed ts := by
  have hsize' : (ts.length : Int) < 2 ^ 31 := by exact_mod_cast hsize
  rw [depth32, toInt_foldl_depthStep (by rw [Int32.toInt_zero]; omega)
    (by rw [Int32.toInt_zero]; omega), Int32.toInt_zero]
  omega

/-- Up to the size at which the depth could wrap around, the totals decide whether a text is
complete. -/
theorem isComplete_iff {text : String} (hsize : (Token.lex text).length < 2 ^ 31) :
    isComplete text = true ↔ opened (Token.lex text) ≤ closed (Token.lex text) := by
  rw [isComplete, decide_eq_true_iff, Int32.le_iff_toInt_le, toInt_depth32 hsize, Int32.toInt_zero]
  omega

/-! ## Programs are complete -/

theorem opened_le_closed_of_ofText {text : String} {p : Program}
    (h : Program.ofText text = .ok p) : opened (Token.lex text) ≤ closed (Token.lex text) := by
  have hopen := openBlocks_of_ofText h
  have hle := opened_le_openBlocks 0 (Token.lex text)
  omega

namespace Session

theorem isComplete_pending_of_feed {files : Files} {fuel : Nat} {s s' : Session} {line : String}
    {reply : Reply} (h : s.feed files fuel line = some reply) (hnext : reply.next = some s')
    (hpending : s'.pending ≠ "") : isComplete s'.pending = false := by
  rcases next_of_feed h with ⟨-, hnone⟩ | ⟨-, s'', hsome, hafter⟩
  · rw [hnext] at hnone
    cases hnone
  · obtain rfl : s' = s'' := Option.some.inj (hnext.symm.trans hsome)
    rcases Action.ofLine_cases s.pending line with
      ⟨hempty, -, c, hact⟩ | ⟨-, ⟨-, hact⟩ | ⟨hwait, hact⟩⟩
    · rw [hact] at hafter
      exact absurd (hafter.trans hempty) hpending
    · rw [hact] at hafter
      exact absurd hafter hpending
    · rw [hact] at hafter
      exact hafter ▸ hwait

end Session

/-- A text that writes a program is complete: no more blocks start in it than end in it. So a
session never asks for more while what is pending is a program. -/
theorem program_is_complete (text : String) (hsize : (Token.lex text).length < 2 ^ 31) :
    (∀ p, Program.ofText text = .ok p →
      isComplete text = true ∧ opened (Token.lex text) ≤ closed (Token.lex text)) ∧
    ∀ (files : Files) (fuel : Nat) (s s' : Session) (line : String) (reply : Reply),
      s.feed files fuel line = some reply → reply.next = some s' → s'.pending = text → text ≠ "" →
        ∀ p, Program.ofText text ≠ .ok p := by
  have hcomplete {p : Program} (hp : Program.ofText text = .ok p) : isComplete text = true :=
    (isComplete_iff hsize).mpr (opened_le_closed_of_ofText hp)
  constructor
  · intro p hp
    exact ⟨hcomplete hp, opened_le_closed_of_ofText hp⟩
  · intro files fuel s s' line reply hfeed hnext hpending hne p hp
    have hwait := Session.isComplete_pending_of_feed hfeed hnext (hpending ▸ hne)
    rw [hpending, hcomplete hp] at hwait
    cases hwait

def closedBranch : String := "3.14 +true+ 3.\n3.14159265 3.\n"

def closedBranchTokens : List Token :=
  [⟨.branch, "3.14", ⟨1, 1⟩⟩, ⟨.operand, "+true+", ⟨1, 6⟩⟩, ⟨.lineEnd, "3.", ⟨1, 13⟩⟩,
   ⟨.endBlock, "3.14159265", ⟨2, 1⟩⟩, ⟨.lineEnd, "3.", ⟨2, 12⟩⟩, ⟨.eof, "", ⟨3, 1⟩⟩]

theorem lex_closedBranch : Token.lex closedBranch = closedBranchTokens := by
  rw [Token.lex_eq]
  decide +kernel

def branchOpening (line col : Nat) : Opening :=
  .branch ⟨⟨.branch, "3.14", ⟨line, col⟩⟩, rfl⟩
    (.operand ⟨⟨.operand, "+true+", ⟨line, col + 5⟩⟩, rfl⟩)
    ⟨⟨.lineEnd, "3.", ⟨line, col + 12⟩⟩, rfl⟩

theorem ofText_closedBranch : ∃ p, Program.ofText closedBranch = .ok p := by
  let tree : ProgramTree :=
    .cons (.block (branchOpening 1 1) .nil ⟨⟨.endBlock, "3.14159265", ⟨2, 1⟩⟩, rfl⟩
      ⟨⟨.lineEnd, "3.", ⟨2, 12⟩⟩, rfl⟩) .nil
  refine ⟨tree.program, ?_⟩
  rw [Program.ofText, lex_closedBranch]
  exact (ofTokens_eq_ok_iff_derivation (by decide)).mpr ⟨tree, rfl, rfl⟩

theorem closedBranch_runs_openBranch_waits :
    isComplete closedBranch = true ∧
      opened (Token.lex closedBranch) ≤ closed (Token.lex closedBranch) ∧
      ∀ p, Program.ofText Session.openBranch ≠ .ok p := by
  obtain ⟨p, hp⟩ := ofText_closedBranch
  have hsize : (Token.lex closedBranch).length < 2 ^ 31 := by
    rw [lex_closedBranch]
    decide
  have hsize' : (Token.lex Session.openBranch).length < 2 ^ 31 := by
    rw [Session.lex_openBranch]
    decide
  obtain ⟨hcomplete, htotals⟩ := (program_is_complete closedBranch hsize).1 p hp
  refine ⟨hcomplete, htotals, ?_⟩
  exact (program_is_complete Session.openBranch hsize').2 (fun _ => .error .notFound) 0 {} _ _ _
    (Session.feed_openBranch _ 0) rfl rfl (by decide)

/-! ## Complete texts -/

/-- In a complete text in which every end of block has a block to close, no block is left open, and
the parser does not report one. (From `2 ^ 31` tokens on, blocks can be open so deep that the depth
of the text wraps around.) -/
theorem complete_text_has_no_open_block {text : String}
    (hsize : (Token.lex text).length < 2 ^ 31)
    (hends : ∀ ts, ts <+: Token.lex text → closed ts ≤ opened ts)
    (hcomplete : isComplete text = true) :
    openBlocks 0 (Token.lex text) = 0 ∧
      ∀ e, Program.ofText text = .error e → e.cause ≠ .unterminatedBlock := by
  have hcount : openBlocks 0 (Token.lex text) + closed (Token.lex text) =
      0 + opened (Token.lex text) :=
    openBlocks_of_prefixes fun ts hts => by
      rw [Nat.zero_add]
      exact hends ts hts
  have hopen : openBlocks 0 (Token.lex text) = 0 := by
    rw [isComplete_iff hsize] at hcomplete
    omega
  refine ⟨hopen, ?_⟩
  intro e he hcause
  have hpos := openBlocks_of_unterminated he hcause
  omega

theorem closedBranch_has_no_open_block :
    isComplete closedBranch = true ∧ openBlocks 0 (Token.lex closedBranch) = 0 := by
  have hends : ∀ ts, ts <+: Token.lex closedBranch → closed ts ≤ opened ts := by
    have htake : ∀ n ≤ closedBranchTokens.length,
        closed (closedBranchTokens.take n) ≤ opened (closedBranchTokens.take n) := by decide
    intro ts hts
    rw [lex_closedBranch] at hts
    rw [List.prefix_iff_eq_take.mp hts]
    exact htake ts.length hts.length_le
  have hsize : (Token.lex closedBranch).length < 2 ^ 31 := by
    rw [lex_closedBranch]
    decide
  have hcomplete : isComplete closedBranch = true := by
    rw [isComplete, lex_closedBranch]
    decide
  exact ⟨hcomplete, (complete_text_has_no_open_block hsize hends hcomplete).1⟩

def earlyEnd : String := "3.14159265 3. 3.14 +true+ 3.\n"

def earlyEndTokens : List Token :=
  [⟨.endBlock, "3.14159265", ⟨1, 1⟩⟩, ⟨.lineEnd, "3.", ⟨1, 12⟩⟩,
   ⟨.branch, "3.14", ⟨1, 15⟩⟩, ⟨.operand, "+true+", ⟨1, 20⟩⟩, ⟨.lineEnd, "3.", ⟨1, 27⟩⟩,
   ⟨.eof, "", ⟨2, 1⟩⟩]

theorem lex_earlyEnd : Token.lex earlyEnd = earlyEndTokens := by
  rw [Token.lex_eq]
  decide +kernel

theorem ofText_earlyEnd :
    Program.ofText earlyEnd = .error ⟨.unterminatedBlock, some ⟨2, 1⟩⟩ := by
  let close : Word .endBlock := ⟨⟨.endBlock, "3.14159265", ⟨1, 1⟩⟩, rfl⟩
  let line : SimpleLine := .empty ⟨⟨.lineEnd, "3.", ⟨1, 12⟩⟩, rfl⟩
  have hsplit : earlyEndTokens =
      close.token :: (line.tokens ++ ((branchOpening 1 15).tokens ++ [⟨.eof, "", ⟨2, 1⟩⟩])) := rfl
  rw [Program.ofText, lex_earlyEnd, ofTokens_eq (by decide), hsplit, assemble_strayEnd,
    assemble_simple, assemble_opening, assemble_eof_eq rfl]
  rfl

/-- The totals do not see that the end comes too early. -/
theorem earlyEnd_complete_but_open :
    isComplete earlyEnd = true ∧
      Program.ofText earlyEnd = .error ⟨.unterminatedBlock, some ⟨2, 1⟩⟩ ∧
      openBlocks 0 (Token.lex earlyEnd) = 1 := by
  refine ⟨?_, ofText_earlyEnd, ?_⟩
  · rw [isComplete, lex_earlyEnd]
    decide
  · rw [lex_earlyEnd]
    decide

end PiScript
