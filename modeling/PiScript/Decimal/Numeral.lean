import PiScript.Decimal.Truncation

/-!
# Numerals of the source language

A numeral is an optional minus sign and digits, then optionally a point and more digits, and after
those optionally an exponent `e+12`. Digits are the ASCII digits. A numeral stands for a decimal
whose scale is the number of digits behind the point less the exponent, provided that the exponent
fits a signed 128-bit word and the scale a signed 64-bit word.
-/

namespace PiScript

/-- The parts of a numeral. An absent fraction or exponent is empty. -/
structure Numeral where
  negative : Bool
  whole : List Char
  fraction : List Char := []
  exponent : List Char := []
deriving DecidableEq

namespace Numeral

def spanDigits (cs : List Char) : List Char × List Char :=
  (cs.takeWhile Char.isDigit, cs.dropWhile Char.isDigit)

def isExponentMark (c : Char) : Bool :=
  c == 'e' || c == 'E'

/-- Reads what may follow the whole digits of a numeral: nothing, or a fraction, or a fraction and
an exponent. -/
def readTail (negative : Bool) (whole : List Char) : List Char → Option Numeral
  | [] => some ⟨negative, whole, [], []⟩
  | '.' :: cs =>
    match spanDigits cs with
    | ([], _) => none
    | (fraction, []) => some ⟨negative, whole, fraction, []⟩
    | (fraction, mark :: '+' :: exponent) =>
      if isExponentMark mark && !exponent.isEmpty && exponent.all Char.isDigit then
        some ⟨negative, whole, fraction, exponent⟩
      else
        none
    | _ => none
  | _ => none

def readUnsigned (negative : Bool) (cs : List Char) : Option Numeral :=
  match spanDigits cs with
  | ([], _) => none
  | (whole, rest) => readTail negative whole rest

def read? : List Char → Option Numeral
  | '-' :: cs => readUnsigned true cs
  | cs => readUnsigned false cs

def valueOf (ds : List Char) : Nat :=
  Nat.ofDigitChars 10 ds 0

def unscaled (n : Numeral) : Int :=
  let size := valueOf (n.whole ++ n.fraction)
  if n.negative then -(size : Int) else size

def scale (n : Numeral) : Int :=
  n.fraction.length - valueOf n.exponent

/-- The largest exponent, `2 ^ 127 - 1`. -/
def maxExponent : Nat := 170141183460469231731687303715884105727

/-- Exponent and scale stay inside their words. -/
def inRange (n : Numeral) : Bool :=
  decide (valueOf n.exponent ≤ maxExponent) &&
    decide (Decimal.minWord ≤ n.scale) && decide (n.scale ≤ Decimal.maxWord)

def decimal? (n : Numeral) : Option Decimal :=
  if n.inRange then some ⟨n.unscaled, n.scale⟩ else none

end Numeral

namespace Decimal

/-- The decimal that a text writes, if it is a numeral in range. -/
def ofNumeral? (cs : List Char) : Option Decimal :=
  (Numeral.read? cs).bind Numeral.decimal?

end Decimal

end PiScript
