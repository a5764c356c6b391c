import PiScript.Outline
import PiScript.Statement
import PiScript.Text.Quoted

/-!
# The outline of a program

How the statements of a program are shown as nested data. A number is shown by its unscaled integer
and its power of ten.
-/

namespace PiScript

def Outline.quoted (s : String) : Outline :=
  .atom (Text.quote s)

def Outline.option : Option Outline → Outline
  | none => .atom "None"
  | some part => .tuple "Some" [part]

def Decimal.outline (d : Decimal) : Outline :=
  .atom ("BigDecimal(\"" ++ Decimal.integerText d.unscaled ++ "e" ++
    Decimal.integerText (-d.scale) ++ "\")")

def Value.outline : Value → Outline
  | .text s => .tuple "Str" [.quoted s]
  | .number d => .tuple "Decimal" [d.outline]
  | .truth b => .tuple "Bool" [.atom (Value.truthText b)]
  | .null => .atom "Null"

def Operator.outline : Operator → Outline
  | .add => .atom "Add"
  | .subtract => .atom "Subtract"
  | .multiply => .atom "Multiply"
  | .divide => .atom "Divide"
  | .equal => .atom "Equal"
  | .notEqual => .atom "NotEqual"
  | .greater => .atom "Greater"
  | .smaller => .atom "Smaller"

def Expr.outline : Expr → Outline
  | .operand v => .tuple "Value" [v.outline]
  | .binary op left right =>
    .record "Binary" [("op", op.outline), ("left", left.outline), ("right", right.outline)]

mutual

def Stmt.outline : Stmt → Outline
  | .inclusion path => .tuple "Include" [.quoted path]
  | .print e => .tuple "Print" [.option (e.map Expr.outline)]
  | .declare name init =>
    .record "VariableDeclaration"
      [("name", .quoted name), ("initializer", .option (init.map Expr.outline))]
  | .forEach source item body =>
    .record "ForEach"
      [("source", .quoted source), ("var", .quoted item), ("body", .list (Program.outlines body))]
  | .loop cond step body =>
    .record "For"
      [("cond", cond.outline), ("step", step.outline), ("body", .list (Program.outlines body))]
  | .branch cond body =>
    .record "If" [("cond", cond.outline), ("body", .list (Program.outlines body))]
  | .define name body =>
    .record "Function" [("name", .quoted name), ("body", .list (Program.outlines body))]
  | .call name => .tuple "Call" [.quoted name]

def Program.outlines : List Stmt → List Outline
  | [] => []
  | s :: rest => s.outline :: Program.outlines rest

end

def Program.outline (p : Program) : Outline :=
  .record "Program" [("stmts", .list (Program.outlines p))]

end PiScript
