/-!
# Binary operators

The eight operators of the language. Four compute a new value and may step a loop, four compare.
-/

namespace PiScript

inductive Operator where
  | add
  | subtract
  | multiply
  | divide
  | equal
  | notEqual
  | greater
  | smaller
deriving DecidableEq

namespace Operator

def all : List Operator :=
  [.add, .subtract, .multiply, .divide, .equal, .notEqual, .greater, .smaller]

def name : Operator → String
  | .add => "add"
  | .subtract => "subtract"
  | .multiply => "multiply"
  | .divide => "divide"
  | .equal => "equal"
  | .notEqual => "not equal"
  | .greater => "greater"
  | .smaller => "smaller"

/-- Whether the operator computes a new value, so that it can step a loop variable. -/
def isArithmetic : Operator → Bool
  | .add | .subtract | .multiply | .divide => true
  | .equal | .notEqual | .greater | .smaller => false

end Operator

end PiScript
