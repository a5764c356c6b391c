import PiScript.Text.Blank
import PiScript.Token.Keyword

/-!
# From text to tokens

`scan` walks over a text once. It skips blanks, takes the longest run of other characters as a
word, and makes a token of it. A word that starts with two slashes hides itself and the rest of its
line; a malformed word is kept and hides what follows it on its line.
-/

namespace PiScript

namespace Token

def takeWord (cs : List Char) : List Char :=
  cs.takeWhile fun c => !Text.isBlank c

def dropWord (cs : List Char) : List Char :=
  cs.dropWhile fun c => !Text.isBlank c

def takeLine (cs : List Char) : List Char :=
  cs.takeWhile (· != '\n')

def dropLine (cs : List Char) : List Char :=
  cs.dropWhile (· != '\n')

def startsComment (word : List Char) : Bool :=
  ['/', '/'].isPrefixOf word

theorem length_dropWord_lt {c : Char} (cs : List Char) (h : Text.isBlank c = false) :
    (dropWord (c :: cs)).length < (c :: cs).length := by
  have hle : (dropWord cs).length ≤ cs.length := (List.dropWhile_sublist _).length_le
  simpa [dropWord, List.dropWhile_cons, h] using Nat.lt_succ_of_le hle

theorem length_dropLine_le (cs : List Char) : (dropLine cs).length ≤ cs.length :=
  (List.dropWhile_sublist _).length_le

/-- The tokens of a text that starts at a given place, the end-of-file token last. -/
def scan (p : Position) (cs : List Char) : List Token :=
  let start := p.after (cs.takeWhile Text.isBlank)
  match _h : cs.dropWhile Text.isBlank with
  | [] => [⟨.eof, "", start⟩]
  | c :: tail =>
    let word := takeWord (c :: tail)
    let rest := dropWord (c :: tail)
    let behind := start.after word
    if startsComment word then
      scan (behind.after (takeLine rest)) (dropLine rest)
    else
      let kind := kindOfWord word
      let token : Token := ⟨kind, String.ofList word, start⟩
      if kind = .malformed then
        token :: scan (behind.after (takeLine rest)) (dropLine rest)
      else
        token :: scan behind rest
termination_by cs.length
decreasing_by
  all_goals
    have hc : Text.isBlank c = false := by
      have := List.head?_dropWhile_not Text.isBlank cs
      simpa [_h] using this
    have hword := length_dropWord_lt tail hc
    have hle : (c :: tail).length ≤ cs.length := _h ▸ (List.dropWhile_sublist _).length_le
    have hline := length_dropLine_le (dropWord (c :: tail))
    omega

def ofText (s : String) : List Token :=
  scan .start s.toList

def isBlankText (s : String) : Bool :=
  s.toList.all Text.isBlank

/-- Drops tokens with a blank text other than end-of-file tokens. -/
def stripBlank (ts : List Token) : List Token :=
  ts.filter fun t => t.kind = .eof || !isBlankText t.text

/-- The tokens of a text as the parser takes them. -/
def lex (s : String) : List Token :=
  stripBlank (ofText s)

end Token

end PiScript
