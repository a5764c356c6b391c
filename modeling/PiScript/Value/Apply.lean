import PiScript.Error

/-!
# Applying operators to values

Numbers take all eight operators. A text takes whatever follows it when added and compares with the
rendering of the other side; a number in front of a text is rendered before it. Truth values only
compare for equality, and null takes no operator on its left.
-/

namespace PiScript

namespace Value

/-- Whether two values are equal; `none` if the left one is null, which compares with nothing. A
text equals a value that renders to it, numbers are compared numerically, and otherwise values of
different sorts differ. -/
def equal? : Value → Value → Option Bool
  | .truth a, .truth b => some (a == b)
  | .truth _, _ => some false
  | .text a, v => some (a == v.render)
  | .number a, .number b => some (a.cmp b == .eq)
  | .number _, _ => some false
  | .null, _ => none

/-- Whether two values differ; `none` if the left one is null. The test has its own cases and does
not ask whether the values are equal. -/
def notEqual? : Value → Value → Option Bool
  | .truth a, .truth b => some (a != b)
  | .truth _, _ => some true
  | .text a, v => some (a != v.render)
  | .number a, .number b => some (a.cmp b != .eq)
  | .number _, _ => some true
  | .null, _ => none

def add? : Value → Value → Option Value
  | .text a, v => some (.text (a ++ v.render))
  | .number a, .number b => some (.number (a.add b))
  | .number a, .text b => some (.text (a.canonical ++ b))
  | _, _ => none

def onNumbers? {α : Type} (f : Decimal → Decimal → α) : Value → Value → Option α
  | .number a, .number b => some (f a b)
  | _, _ => none

end Value

namespace Operator

/-- The value of an operator at two operands; `none` if it does not take them. Division takes any
two numbers but may fail. -/
def eval? (op : Operator) (l r : Value) : Option (Except DivisionError Value) :=
  match op with
  | .add => (Value.add? l r).map .ok
  | .subtract => Value.onNumbers? (fun a b => .ok (.number (a.sub b))) l r
  | .multiply => Value.onNumbers? (fun a b => .ok (.number (a.mul b))) l r
  | .divide => Value.onNumbers? (fun a b => (a.divide b).map .number) l r
  | .equal => (Value.equal? l r).map fun b => .ok (.truth b)
  | .notEqual => (Value.notEqual? l r).map fun b => .ok (.truth b)
  | .greater => Value.onNumbers? (fun a b => .ok (.truth (a.cmp b == .gt))) l r
  | .smaller => Value.onNumbers? (fun a b => .ok (.truth (a.cmp b == .lt))) l r

def apply (op : Operator) (l r : Value) : Except Cause Value :=
  match op.eval? l r with
  | none => .error (.invalidOperation op l.sort r.sort)
  | some (.error e) => .error (.division e)
  | some (.ok v) => .ok v

end Operator

end PiScript
