import PiScript.Statement.Assemble

/-!
# The grammar of programs

Derivation trees of the grammar

* `Program = Line*`,
* `Block = Line* END_BLOCK EOL`,
* `Expr = operand | operand operator operand`,

where a line is one of the ten forms below. A tree carries the very tokens it derives, each with a
proof of its kind, so that two trees are equal only if they are the same derivation. The end of a
block is a line of its own outside every block and never inside one; that is the index of
`LineTree`.
-/

namespace PiScript

namespace Grammar

open Parse (headKind)

/-! ## Words -/

structure Word (k : TokenKind) where
  token : Token
  kind_token : token.kind = k

attribute [simp] Word.kind_token

def Word.value (w : Word .operand) : Value :=
  .ofLiteral w.token.text

structure NameWord where
  token : Token
  name : String
  kind_token : token.kind = .operand
  decodes : Value.ofLiteral token.text = .text name

attribute [simp] NameWord.kind_token NameWord.decodes

structure OperatorWord where
  token : Token
  op : Operator
  kind_token : token.kind = .operator op

attribute [simp] OperatorWord.kind_token

/-! ## Expressions -/

/-- `Expr = operand | operand operator operand`. -/
inductive ExprTree where
  | operand (v : Word .operand)
  | binary (left : Word .operand) (op : OperatorWord) (right : Word .operand)

namespace ExprTree

def tokens : ExprTree → List Token
  | .operand v => [v.token]
  | .binary left op right => [left.token, op.token, right.token]

def expr : ExprTree → Expr
  | .operand v => .operand v.value
  | .binary left op right => .binary op.op left.value right.value

end ExprTree

/-! ## Lines -/

/-- A line that neither opens nor closes a block. -/
inductive SimpleLine where
  /-- `EOL`. -/
  | empty (stop : Word .lineEnd)
  /-- An operator where a line should start. -/
  | stray (w : OperatorWord)
  /-- `DASH_DASH name EOL`. -/
  | inclusion (marker : Word .dashes) (path : NameWord) (stop : Word .lineEnd)
  /-- `Expr EOL`. -/
  | print (e : ExprTree) (stop : Word .lineEnd)
  /-- `VAR_DECL name VAR_DECL Expr? EOL`. -/
  | declare (keyword : Word .declare) (name : NameWord) (separator : Word .declare)
      (init : Option ExprTree) (stop : Word .lineEnd)
  /-- `FUN_CALL name EOL`. -/
  | call (keyword : Word .call) (name : NameWord) (stop : Word .lineEnd)

namespace SimpleLine

def tokens : SimpleLine → List Token
  | .empty stop => [stop.token]
  | .stray w => [w.token]
  | .inclusion marker path stop => [marker.token, path.token, stop.token]
  | .print e stop => e.tokens ++ [stop.token]
  | .declare keyword name separator init stop =>
    keyword.token :: name.token :: separator.token ::
      ((init.map ExprTree.tokens).getD [] ++ [stop.token])
  | .call keyword name stop => [keyword.token, name.token, stop.token]

def statement? : SimpleLine → Option Stmt
  | .empty _ => none
  | .stray _ => none
  | .inclusion _ path _ => some (.inclusion path.name)
  | .print e _ => some (.print (some e.expr))
  | .declare _ name _ init _ => some (.declare name.name (init.map ExprTree.expr))
  | .call _ name _ => some (.call name.name)

end SimpleLine

inductive Opening where
  /-- `FOREACH name name EOL`. -/
  | forEach (keyword : Word .forEach) (source item : NameWord) (stop : Word .lineEnd)
  /-- `FOR Expr Expr EOL`. -/
  | loop (keyword : Word .loop) (cond step : ExprTree) (stop : Word .lineEnd)
  /-- `IF Expr EOL`. -/
  | branch (keyword : Word .branch) (cond : ExprTree) (stop : Word .lineEnd)
  /-- `STAR_STAR name EOL`. -/
  | define (marker : Word .stars) (name : NameWord) (stop : Word .lineEnd)

namespace Opening

def tokens : Opening → List Token
  | .forEach keyword source item stop =>
    [keyword.token, source.token, item.token, stop.token]
  | .loop keyword cond step stop => keyword.token :: (cond.tokens ++ (step.tokens ++ [stop.token]))
  | .branch keyword cond stop => keyword.token :: (cond.tokens ++ [stop.token])
  | .define marker name stop => [marker.token, name.token, stop.token]

def head : Opening → BlockHead
  | .forEach _ source item _ => .forEach source.name item.name
  | .loop _ cond step _ => .loop cond.expr step.expr
  | .branch _ cond _ => .branch cond.expr
  | .define _ name _ => .define name.name

end Opening

/-! ## Programs -/

inductive Place where
  | outside
  | inside

mutual

/-- A line with all lines of the block that it opens. -/
inductive LineTree : Place → Type where
  | simple {place : Place} (l : SimpleLine) : LineTree place
  /-- The end of a block where none is open. -/
  | strayEnd (w : Word .endBlock) : LineTree .outside
  | block {place : Place} (opening : Opening) (body : LinesTree .inside)
      (close : Word .endBlock) (stop : Word .lineEnd) : LineTree place

inductive LinesTree : Place → Type where
  | nil {place : Place} : LinesTree place
  | cons {place : Place} (l : LineTree place) (ls : LinesTree place) : LinesTree place

end

mutual

def LineTree.tokens {place : Place} : LineTree place → List Token
  | .simple l => l.tokens
  | .strayEnd w => [w.token]
  | .block opening body close stop =>
    opening.tokens ++ (body.tokens ++ [close.token, stop.token])

def LinesTree.tokens {place : Place} : LinesTree place → List Token
  | .nil => []
  | .cons l ls => l.tokens ++ ls.tokens

end

mutual

def LineTree.program {place : Place} : LineTree place → Program
  | .simple l => l.statement?.toList
  | .strayEnd _ => []
  | .block opening body _ _ => [opening.head.toStmt body.program]

def LinesTree.program {place : Place} : LinesTree place → Program
  | .nil => []
  | .cons l ls => l.program ++ ls.program

end

abbrev ProgramTree := LinesTree .outside

/-- The tokens before the first end of file, or all of them. -/
def beforeEnd (ts : List Token) : List Token :=
  ts.takeWhile (·.kind ≠ .eof)

end Grammar

end PiScript
