import PiScript.Decimal.Basic

/-!
# Exact division

A quotient of decimals is a decimal only if its reduced denominator has no prime factor other than
two and five. `divide` returns that decimal at the smallest scale that can hold it, but never below
the difference of the operands' scales; every other quotient is an error.
-/

namespace PiScript

inductive DivisionError where
  /-- Zero divided by zero. -/
  | undefined
  /-- Anything else divided by zero. -/
  | byZero
  | nonTerminating
deriving DecidableEq

namespace Decimal

/-- Divides `n` by `p` as often as it can, counting on from `k`. -/
def factorOutFrom (p k n : Nat) : Nat × Nat :=
  if _h : 1 < p ∧ 0 < n ∧ n % p = 0 then factorOutFrom p (k + 1) (n / p) else (k, n)
termination_by n
decreasing_by exact Nat.div_lt_self (by omega) (by omega)

/-- Splits `n` into a power of `p` and a cofactor that `p` does not divide: `(k, m)` stands for
`p ^ k * m`. -/
def factorOut (p n : Nat) : Nat × Nat :=
  factorOutFrom p 0 n

def preferredScale (a b : Decimal) : Int :=
  a.scale - b.scale

/-- The quotient with just enough digits past the preferred scale to clear the denominator. -/
def quotient (a b : Decimal) : Except DivisionError Decimal :=
  if b.unscaled = 0 then
    .error (if a.unscaled = 0 then .undefined else .byZero)
  else
    let g := Int.gcd a.unscaled b.unscaled
    let num := a.unscaled / g * b.unscaled.sign
    let (twos, odd) := factorOut 2 (b.unscaled.natAbs / g)
    let (fives, rest) := factorOut 5 odd
    if rest = 1 then
      let k := max twos fives
      .ok ⟨num * (Nat.pow 2 (k - twos) * Nat.pow 5 (k - fives)), preferredScale a b + k⟩
    else
      .error .nonTerminating

/-- Gives up trailing zeros as long as the scale stays above `preferred`. -/
def dropZerosTo (preferred : Int) (d : Decimal) : Decimal :=
  if _h : preferred < d.scale ∧ d.unscaled ≠ 0 ∧ d.unscaled % 10 = 0 then
    dropZerosTo preferred ⟨d.unscaled / 10, d.scale - 1⟩
  else
    d
termination_by (d.scale - preferred).toNat
decreasing_by omega

/-- The exact quotient, at the smallest scale from the preferred one upwards that can hold it. -/
def divide (a b : Decimal) : Except DivisionError Decimal :=
  (quotient a b).map (dropZerosTo (preferredScale a b))

end Decimal

end PiScript
