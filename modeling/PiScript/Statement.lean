import PiScript.Operator
import PiScript.Value

/-!
# Expressions, statements and programs

An expression is one operand or one operator between two operands. A statement stands on a logical
line of its own; four kinds of statement own a block of further statements.
-/

namespace PiScript

inductive Expr where
  | operand (v : Value)
  | binary (op : Operator) (left right : Value)
deriving DecidableEq

inductive Stmt where
  /-- Runs the program in a file as a block. -/
  | inclusion (path : String)
  /-- Prints a value on a line of its own, or an empty line. -/
  | print (e : Option Expr)
  /-- Binds a variable, to null if it has no initial value. -/
  | declare (name : String) (init : Option Expr)
  | forEach (source item : String) (body : List Stmt)
  /-- Runs the block and then the step, as long as the condition holds. -/
  | loop (cond step : Expr) (body : List Stmt)
  | branch (cond : Expr) (body : List Stmt)
  | define (name : String) (body : List Stmt)
  | call (name : String)

/-- A program, or the body of a block. -/
abbrev Program := List Stmt

inductive BlockHead where
  | forEach (source item : String)
  | loop (cond step : Expr)
  | branch (cond : Expr)
  | define (name : String)
deriving DecidableEq

def BlockHead.toStmt (body : Program) : BlockHead → Stmt
  | .forEach source item => .forEach source item body
  | .loop cond step => .loop cond step body
  | .branch cond => .branch cond body
  | .define name => .define name body

end PiScript
