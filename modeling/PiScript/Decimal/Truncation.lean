import PiScript.Decimal.Basic

/-!
# Integer part in a machine word

The integer part of a decimal, cut towards zero and saturated to a signed 64-bit word. The number
of places to shift by is itself kept in an unsigned 32-bit word, so a scale of `2 ^ 32` shifts by
nothing at all.
-/

namespace PiScript

namespace Decimal

/-- The smallest signed 64-bit word, the negative of `2 ^ 63`. -/
def minWord : Int := -9223372036854775808

def maxWord : Int := 9223372036854775807

def saturate (n : Int) : Int :=
  max minWord (min n maxWord)

/-- How many unsigned 32-bit words there are, `2 ^ 32`. -/
def shortWords : Nat := 4294967296

/-- How many places the point moves, as an unsigned 32-bit word. -/
def shiftPlaces (d : Decimal) : Nat :=
  d.scale.natAbs % shortWords

def truncate (d : Decimal) : Int :=
  saturate
    (if 0 < d.scale then d.unscaled.tdiv (tenPow d.shiftPlaces)
     else d.unscaled * tenPow d.shiftPlaces)

end Decimal

end PiScript
