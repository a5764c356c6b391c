/-!
# Terminal styles

Escape sequences that colour a text. A colour ends by going back to the default colour, any other
style by a full reset.
-/

namespace PiScript

inductive Colour where
  | red
  | green
  | yellow
  | cyan
  | brightBlack
  | brightBlue

namespace Text

def escape (code : String) : String :=
  "\x1b[" ++ code ++ "m"

def colourCode : Colour → String
  | .red => "31"
  | .green => "32"
  | .yellow => "33"
  | .cyan => "36"
  | .brightBlack => "90"
  | .brightBlue => "94"

def paint (c : Colour) (s : String) : String :=
  escape (colourCode c) ++ s ++ escape "39"

def bold (s : String) : String :=
  escape "1" ++ s ++ escape "0"

def dim (s : String) : String :=
  escape "2" ++ s ++ escape "0"

end Text

end PiScript
