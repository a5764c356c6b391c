/-!
# Lines of a text

Lines end at a line feed. A carriage return right before that line feed belongs to the line end.
What follows the last line feed is a line of its own unless it is empty.
-/

namespace PiScript

namespace Text

/-- The pieces of a text between its line feeds. -/
def splitAtFeeds : List Char → List (List Char)
  | [] => [[]]
  | c :: cs =>
    if c = '\n' then [] :: splitAtFeeds cs
    else
      match splitAtFeeds cs with
      | [] => [[c]]
      | piece :: rest => (c :: piece) :: rest

def dropReturn (line : List Char) : List Char :=
  if line.getLast? = some '\r' then line.dropLast else line

def ofPieces : List (List Char) → List (List Char)
  | [] => []
  | [last] => if last.isEmpty then [] else [last]
  | piece :: rest => dropReturn piece :: ofPieces rest

def lines (cs : List Char) : List (List Char) :=
  ofPieces (splitAtFeeds cs)

end Text

end PiScript
