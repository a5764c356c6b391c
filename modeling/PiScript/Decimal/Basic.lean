import PiScript.Decimal.Digits

/-!
# Decimals that remember their scale

A decimal is an integer together with a scale and stands for the number `unscaled * 10 ^ (-scale)`.
The scale is part of how a decimal is written (`1.50` is not `1.5`) and never of how it compares.
Scales may be negative: `1.5E+3` is `15` at scale `-2`.

Scales are integers of any size here, and so are the powers of ten of leading digits. Arithmetic
that keeps them in 64 bits gives the same results as long as none of them leaves that range, which
sums, products and canonical forms of decimals with scales close to its ends can make them do.
-/

namespace PiScript

/-- The number `unscaled * 10 ^ (-scale)`, written with `scale` digits after the point. -/
structure Decimal where
  unscaled : Int
  scale : Int
deriving DecidableEq

namespace Decimal

def ofInt (n : Int) : Decimal :=
  ⟨n, 0⟩

/-- The same number with `places` more digits after the point. -/
def extend (d : Decimal) (places : Nat) : Decimal :=
  ⟨d.unscaled * tenPow places, d.scale + places⟩

/-- The integer that writes `d` at scale `s`, for an `s` no smaller than its own scale. -/
def unscaledAt (d : Decimal) (s : Int) : Int :=
  d.unscaled * tenPow (s - d.scale).toNat

/-! ## Sums and differences -/

/-- How many digits a zero operand may add to the scale of a sum. -/
def zeroExtension : Nat := 15

/-- A zero operand of scale `s` leaves the number alone and extends its scale towards `s`, by at
most `zeroExtension` places. -/
def extendTowards (d : Decimal) (s : Int) : Decimal :=
  d.extend (min (s - d.scale).toNat zeroExtension)

/-- The sum, at the larger of the two scales unless an operand is zero. The distance between the
scales is not bounded. -/
def add (a b : Decimal) : Decimal :=
  if b.unscaled = 0 then a.extendTowards b.scale
  else if a.unscaled = 0 then b.extendTowards a.scale
  else
    let s := max a.scale b.scale
    ⟨a.unscaledAt s + b.unscaledAt s, s⟩

/-- The difference, always at the larger of the two scales. -/
def sub (a b : Decimal) : Decimal :=
  let s := max a.scale b.scale
  ⟨a.unscaledAt s - b.unscaledAt s, s⟩

/-! ## Products -/

/-- The largest scale at which a decimal is recognised as one. -/
def maxScaleOfOne : Int := 38

/-- Whether `d` is `1`, `1.0`, `1.00` and so on, up to scale `maxScaleOfOne`. -/
def isOne (d : Decimal) : Bool :=
  decide (0 ≤ d.scale) && decide (d.scale ≤ maxScaleOfOne) && d.unscaled == tenPow d.scale.toNat

/-- Moves every trailing zero of `n` into the scale. -/
def stripZeros (n s : Int) : Decimal :=
  if _h : n ≠ 0 ∧ n % 10 = 0 then stripZeros (n / 10) (s - 1) else ⟨n, s⟩
termination_by n.natAbs
decreasing_by omega

/-- The same number without trailing zeros, so possibly at a negative scale; zero has scale zero. -/
def normalize (d : Decimal) : Decimal :=
  if d.unscaled = 0 then ⟨0, 0⟩ else stripZeros d.unscaled d.scale

/-- The product, at the sum of the scales, which is not bounded; a factor of one only normalizes the
other factor. -/
def mul (a b : Decimal) : Decimal :=
  if a.isOne then b.normalize
  else if b.isOne then a.normalize
  else ⟨a.unscaled * b.unscaled, a.scale + b.scale⟩

/-! ## Order -/

/-- The power of ten of the leading digit: `d` is `x.yz * 10 ^ adjusted`. It is not bounded, and can
lie outside 64 bits where the scale does not. -/
def adjusted (d : Decimal) : Int :=
  (digits d.unscaled.natAbs).length - 1 - d.scale

/-- Compares the sizes of two decimals other than zero. Sizes with different leading powers of ten
are told apart by those alone, so the scales may lie arbitrarily far from each other. -/
def cmpSize (a b : Decimal) : Ordering :=
  if a.adjusted < b.adjusted then .lt
  else if b.adjusted < a.adjusted then .gt
  else
    let s := max a.scale b.scale
    compare (a.unscaledAt s).natAbs (b.unscaledAt s).natAbs

def cmp (a b : Decimal) : Ordering :=
  if a.unscaled.sign < b.unscaled.sign then .lt
  else if b.unscaled.sign < a.unscaled.sign then .gt
  else if a.unscaled = 0 then .eq
  else if 0 < a.unscaled then cmpSize a b
  else cmpSize b a

end Decimal

end PiScript
