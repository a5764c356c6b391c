import PiScript.Bindings
import PiScript.Statement

/-!
# Namespaces

A running program has one table of variables and one of functions. Blocks, functions and included
files all use the same two tables, so nothing is local.
-/

namespace PiScript

structure Env where
  vars : Bindings Value
  functions : Bindings Program

namespace Env

def empty : Env :=
  ⟨.empty, .empty⟩

def get? (env : Env) (name : String) : Option Value :=
  env.vars.get? name

def define (env : Env) (name : String) (v : Value) : Env :=
  { env with vars := env.vars.insert name v }

def remove (env : Env) (name : String) : Env :=
  { env with vars := env.vars.erase name }

def function? (env : Env) (name : String) : Option Program :=
  env.functions.get? name

def defineFunction (env : Env) (name : String) (body : Program) : Env :=
  { env with functions := env.functions.insert name body }

/-- The value of an operand: that of the variable it names, or else the operand itself. -/
def resolve (env : Env) (v : Value) : Value :=
  match v with
  | .text name => (env.get? name).getD v
  | _ => v

/-! ## What look-ups give -/

@[simp]
theorem get?_define_self (env : Env) (name : String) (v : Value) :
    (env.define name v).get? name = some v :=
  Bindings.get?_insert_self _ _ _

theorem get?_define_of_ne (env : Env) {name other : String} (v : Value) (h : other ≠ name) :
    (env.define name v).get? other = env.get? other :=
  Bindings.get?_insert_of_ne _ _ h

@[simp]
theorem get?_remove_self (env : Env) (name : String) : (env.remove name).get? name = none :=
  Bindings.get?_erase_self _ _

theorem get?_remove_of_ne (env : Env) {name other : String} (h : other ≠ name) :
    (env.remove name).get? other = env.get? other :=
  Bindings.get?_erase_of_ne _ h

@[simp]
theorem function?_defineFunction_self (env : Env) (name : String) (body : Program) :
    (env.defineFunction name body).function? name = some body :=
  Bindings.get?_insert_self _ _ _

theorem function?_defineFunction_of_ne (env : Env) {name other : String} (body : Program)
    (h : other ≠ name) : (env.defineFunction name body).function? other = env.function? other :=
  Bindings.get?_insert_of_ne _ _ h

end Env

end PiScript
