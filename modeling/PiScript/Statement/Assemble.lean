import PiScript.Statement.Progress

/-!
# From lines to programs

`assemble` reads logical lines until the program ends. Opening a block sets the statements read so
far aside, and the end of that block turns what was read since into one statement behind them. The
end of a block is only special inside a block.
-/

namespace PiScript

namespace Parse

/-- A block that is still open: its first line and the statements before it, last first. -/
structure OpenBlock where
  head : BlockHead
  before : List Stmt

/-- The statements of the enclosing block, last first, once the open block ends with the statements
`read`, last first. -/
def OpenBlock.close (b : OpenBlock) (read : List Stmt) : List Stmt :=
  b.head.toStmt read.reverse :: b.before

/-- Reads the rest of a program, inside the open blocks `blocks`, innermost first, and behind the
statements `read` of the innermost one, last first. -/
def assemble (blocks : List OpenBlock) (read : List Stmt) (ts : List Token) :
    Except Failure Program :=
  if _heof : headKind ts = .eof then
    if blocks.isEmpty then .ok read.reverse else .error ⟨.unterminatedBlock, ts⟩
  else
    match headKind ts, blocks with
    | .endBlock, block :: outer =>
      match _hend : lineEnd ts.tail with
      | .error f => .error f
      | .ok rest => assemble outer (block.close read) rest
    | _, _ =>
      match _hline : readLine ts with
      | .error f => .error f
      | .ok (.blank, rest) => assemble blocks read rest
      | .ok (.statement s, rest) => assemble blocks (s :: read) rest
      | .ok (.opening head, rest) => assemble (⟨head, read⟩ :: blocks) [] rest
termination_by ts.length
decreasing_by
  · obtain ⟨t, _, htail⟩ := lineEnd_eq_ok _hend
    have hlt := length_tail_lt _heof
    rw [htail] at hlt
    exact Nat.lt_of_succ_lt hlt
  all_goals exact length_readLine_lt _heof _hline

end Parse

/-- The place of the first of the remaining tokens `rest` of `ts`, or of the last token of `ts` if
none remain. -/
def Failure.place (ts rest : List Token) : Position :=
  match rest with
  | t :: _ => t.pos
  | [] => (ts.getLast?.map Token.pos).getD .start

def Failure.toError (ts : List Token) (f : Failure) : Error :=
  ⟨f.cause, some (Failure.place ts f.rest)⟩

namespace Program

/-- The program that a token list writes. A malformed word anywhere in it comes before all else. -/
def ofTokens (ts : List Token) : Except Error Program :=
  match ts.find? (·.kind = .malformed) with
  | some t => .error ⟨.unexpectedWord t.text, some t.pos⟩
  | none => (Parse.assemble [] [] ts).mapError (Failure.toError ts)

def ofText (s : String) : Except Error Program :=
  ofTokens (Token.lex s)

end Program

end PiScript
