import PiScript.Env

/-!
# The files that programs name

The paths of all inclusions in a program, at any depth and also inside function bodies. Running a
program reads no other files, apart from those that the included programs name in their turn.
-/

namespace PiScript

mutual

def Stmt.inclusions : Stmt → List String
  | .inclusion path => [path]
  | .print _ => []
  | .declare _ _ => []
  | .forEach _ _ body => Program.inclusions body
  | .loop _ _ body => Program.inclusions body
  | .branch _ body => Program.inclusions body
  | .define _ body => Program.inclusions body
  | .call _ => []

def Program.inclusions : List Stmt → List String
  | [] => []
  | s :: rest => s.inclusions ++ Program.inclusions rest

end

/-- The paths that the functions of a namespace name. -/
def Env.inclusions (env : Env) : List String :=
  env.functions.entries.flatMap fun (_, body) => Program.inclusions body

end PiScript
