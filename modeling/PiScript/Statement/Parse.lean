import PiScript.Error
import PiScript.Statement
import PiScript.Token.Scan

/-!
# From tokens to statements

The grammar is flat: a program is a sequence of logical lines, each of which is recognised by its
first token. `readLine` reads one logical line. `assemble` reads line after line and keeps the
blocks that are still open on a stack, innermost first.

Reading takes the tokens that remain and returns those behind what it read. A failure carries the
tokens from the offending one on, so it also says where reading stopped. Behind the last token of a
list there is, as it were, another end of file.
-/

namespace PiScript

/-- A cause, and the remaining tokens from the offending one on. -/
structure Failure where
  cause : Cause
  rest : List Token

namespace Parse

def headKind : List Token → TokenKind
  | [] => .eof
  | t :: _ => t.kind

/-! ## Pieces of a line -/

def lineEnd (ts : List Token) : Except Failure (List Token) :=
  if headKind ts = .lineEnd then .ok ts.tail
  else .error ⟨.expectedLineEnd (headKind ts), ts⟩

def operand? : List Token → Option (Value × List Token)
  | [] => none
  | t :: rest => if t.kind = .operand then some (Value.ofLiteral t.text, rest) else none

def operand (ts : List Token) : Except Failure (Value × List Token) :=
  match operand? ts with
  | some read => .ok read
  | none => .error ⟨.expectedOperand (headKind ts), ts⟩

/-- Reads an operand that has to be a text. -/
def name (missing notText : Cause) (ts : List Token) : Except Failure (String × List Token) :=
  match operand? ts with
  | some (.text s, rest) => .ok (s, rest)
  | some _ => .error ⟨notText, ts⟩
  | none => .error ⟨missing, ts⟩

def exprTail (left : Value) (ts : List Token) : Except Failure (Expr × List Token) :=
  match headKind ts with
  | .operator op => do
    let (right, rest) ← operand ts.tail
    return (.binary op left right, rest)
  | _ => return (.operand left, ts)

/-- Reads an expression; there is none at the end of a line or of the program. -/
def expr? (ts : List Token) : Except Failure (Option Expr × List Token) :=
  match headKind ts with
  | .lineEnd | .eof => return (none, ts)
  | _ => do
    let (left, rest) ← operand ts
    let (e, rest) ← exprTail left rest
    return (some e, rest)

/-! ## Logical lines -/

inductive Line where
  /-- No statement: an empty line, or a word that means nothing where it stands. -/
  | blank
  | statement (s : Stmt)
  | opening (head : BlockHead)

def endStatement (s : Stmt) (ts : List Token) : Except Failure (Line × List Token) :=
  return (.statement s, ← lineEnd ts)

def endOpening (head : BlockHead) (ts : List Token) : Except Failure (Line × List Token) :=
  return (.opening head, ← lineEnd ts)

def inclusion (ts : List Token) : Except Failure (Line × List Token) := do
  let (path, ts) ← name .missingPath .pathNotText ts
  endStatement (.inclusion path) ts

def print (ts : List Token) : Except Failure (Line × List Token) := do
  let (e, ts) ← expr? ts
  endStatement (.print e) ts

def declaration (ts : List Token) : Except Failure (Line × List Token) := do
  let (x, ts) ← name .missingVariable .variableNotText ts
  if headKind ts = .declare then
    let (init, ts) ← expr? ts.tail
    endStatement (.declare x init) ts
  else
    throw ⟨.unfinishedDeclaration, ts⟩

def call (ts : List Token) : Except Failure (Line × List Token) := do
  let (f, ts) ← name .functionNotText .functionNotText ts
  endStatement (.call f) ts

def forEach (ts : List Token) : Except Failure (Line × List Token) := do
  let (source, ts) ← name .missingVariable .variableNotText ts
  let (item, ts) ← name .missingVariable .variableNotText ts
  endOpening (.forEach source item) ts

def loop (ts : List Token) : Except Failure (Line × List Token) := do
  let (cond, ts) ← expr? ts
  let (step, ts) ← expr? ts
  match cond, step with
  | some cond, some step => endOpening (.loop cond step) ts
  | _, _ => throw ⟨.incompleteLoop, ts⟩

def branch (ts : List Token) : Except Failure (Line × List Token) := do
  let (cond, ts) ← expr? ts
  match cond with
  | some cond => endOpening (.branch cond) ts
  | none => throw ⟨.missingCondition, ts⟩

def definition (ts : List Token) : Except Failure (Line × List Token) := do
  let (f, ts) ← name .missingFunction .functionNotText ts
  endOpening (.define f) ts

/-- Reads one logical line. An operator or the end of a block where a line should start is passed
over by itself. -/
def readLine (ts : List Token) : Except Failure (Line × List Token) :=
  match headKind ts with
  | .eof => .ok (.blank, ts)
  | .dashes => inclusion ts.tail
  | .operand => print ts
  | .declare => declaration ts.tail
  | .forEach => forEach ts.tail
  | .loop => loop ts.tail
  | .branch => branch ts.tail
  | .stars => definition ts.tail
  | .call => call ts.tail
  | .lineEnd | .endBlock | .operator _ | .malformed => .ok (.blank, ts.tail)

end Parse

end PiScript
