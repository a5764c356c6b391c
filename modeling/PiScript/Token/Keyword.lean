import PiScript.Token

/-!
# Keywords

A keyword is a leading piece of the digits of π, and its length alone says which keyword it is.
-/

namespace PiScript

namespace Token

def piDigits : List Char :=
  ['3', '.', '1', '4', '1', '5', '9', '2', '6', '5', '3', '5', '8', '9', '7', '9', '3', '2', '3',
   '8', '4', '6', '2', '6', '4', '3', '3', '8', '3', '2', '7', '9', '5', '0', '2', '8', '8', '4',
   '1', '9', '7', '1', '6', '9', '3', '9', '9', '3', '7', '5', '1', '0']

def kindOfLength : Nat → TokenKind
  | 2 => .lineEnd
  | 3 => .declare
  | 4 => .branch
  | 5 => .loop
  | 6 => .operator .add
  | 7 => .operator .subtract
  | 8 => .operator .multiply
  | 9 => .operator .divide
  | 10 => .endBlock
  | 11 => .forEach
  | 12 => .call
  | 13 => .operator .equal
  | 14 => .operator .notEqual
  | 15 => .operator .greater
  | 16 => .operator .smaller
  | _ => .malformed

/-- The kind of a word that should be a keyword; `malformed` unless it is one. -/
def keywordKind (word : List Char) : TokenKind :=
  if word.isPrefixOf piDigits then kindOfLength word.length else .malformed

/-- Whether a word stands between plus signs, which may enclose nothing but must be two. -/
def isQuoted (word : List Char) : Bool :=
  decide (2 ≤ word.length) && word.head? == some '+' && word.getLast? == some '+'

def kindOfWord (word : List Char) : TokenKind :=
  if word = ['-', '-'] then .dashes
  else if word = ['*', '*'] then .stars
  else if isQuoted word then .operand
  else if ['3', '.'].isPrefixOf word then keywordKind word
  else .malformed

end Token

end PiScript
