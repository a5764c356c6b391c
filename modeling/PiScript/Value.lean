import PiScript.Decimal.Numeral
import PiScript.Decimal.Text

/-!
# Values and their literals

A value is a text, a number, a truth value or null. The same type serves for the operands written
in a program and for what variables hold: whether the operand `+x+` is the text `x` or the variable
of that name is decided when it is evaluated.

A literal is a word between two plus signs. Reading one never fails: what is neither a constant nor
a numeral in range is a text. Numbers are printed in canonical form and written as literals in
plain form, because a literal has no negative exponents.
-/

namespace PiScript

inductive Value where
  | text (s : String)
  | number (d : Decimal)
  | truth (b : Bool)
  | null
deriving DecidableEq

inductive ValueSort where
  | text
  | number
  | truth
  | null
deriving DecidableEq

def ValueSort.name : ValueSort → String
  | .text => "string"
  | .number => "decimal"
  | .truth => "boolean"
  | .null => "null"

namespace Value

def sort : Value → ValueSort
  | .text _ => .text
  | .number _ => .number
  | .truth _ => .truth
  | .null => .null

def truthText (b : Bool) : String :=
  if b then "true" else "false"

/-- What printing a value writes. -/
def render : Value → String
  | .text s => s
  | .number d => d.canonical
  | .truth b => truthText b
  | .null => "null"

def inner : Value → String
  | .text s => s
  | .number d => d.plain
  | .truth b => truthText b
  | .null => "null"

/-- The word that writes the value in a program. -/
def literal (v : Value) : String :=
  "+" ++ v.inner ++ "+"

def ofInner (s : String) : Value :=
  if s = "null" then .null
  else if s = "true" then .truth true
  else if s = "false" then .truth false
  else
    match Decimal.ofNumeral? s.toList with
    | some d => .number d
    | none => .text s

/-- The value of a literal: its first and last character are dropped, whatever they are. -/
def ofLiteral (word : String) : Value :=
  ofInner (String.ofList word.toList.tail.dropLast)

end Value

end PiScript
