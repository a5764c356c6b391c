import PiScript.Decimal.Basic

/-!
# The two written forms of a decimal

The canonical form shows the scale: it is plain as long as the scale is not negative and the
leading digit is no further than six places behind the point, and scientific otherwise. The plain
form never has an exponent and pads with zeros instead.
-/

namespace PiScript

namespace Decimal

/-- Sets the point `places` digits from the right, padding with zeros on the left. -/
def placePoint (ds : List Char) (places : Nat) : List Char :=
  if places = 0 then ds
  else if places < ds.length then
    ds.take (ds.length - places) ++ '.' :: ds.drop (ds.length - places)
  else
    '0' :: '.' :: (List.replicate (places - ds.length) '0' ++ ds)

/-- The exponent mark of a scientific form. An exponent of zero is not written. -/
def exponentMark (e : Int) : List Char :=
  if e = 0 then []
  else if 0 < e then 'E' :: '+' :: digits e.natAbs
  else 'E' :: '-' :: digits e.natAbs

def pointAfterFirst : List Char → List Char
  | [] => []
  | [c] => [c]
  | c :: cs => c :: '.' :: cs

def withSign (n : Int) (cs : List Char) : List Char :=
  if n < 0 then '-' :: cs else cs

def integerText (n : Int) : String :=
  String.ofList (withSign n (digits n.natAbs))

/-- The smallest power of ten of a leading digit that is still written without an exponent. -/
def minPlainAdjusted : Int := -6

def isPlain (d : Decimal) : Bool :=
  decide (0 ≤ d.scale) && decide (minPlainAdjusted ≤ d.adjusted)

def canonicalChars (d : Decimal) : List Char :=
  let ds := digits d.unscaled.natAbs
  withSign d.unscaled
    (if d.isPlain then placePoint ds d.scale.toNat
     else pointAfterFirst ds ++ exponentMark d.adjusted)

def plainChars (d : Decimal) : List Char :=
  let ds := digits d.unscaled.natAbs
  withSign d.unscaled
    (if d.scale < 0 then ds ++ List.replicate d.scale.natAbs '0'
     else placePoint ds d.scale.toNat)

/-- The canonical form, which determines the unscaled integer and the scale. -/
def canonical (d : Decimal) : String :=
  String.ofList d.canonicalChars

/-- The plain form, which is always a numeral of the source language. -/
def plain (d : Decimal) : String :=
  String.ofList d.plainChars

end Decimal

end PiScript
