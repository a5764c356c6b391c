/-!
# Outlines

An outline shows nested data with every part on a line of its own, four blanks further in than what
it belongs to and followed by a comma.
-/

namespace PiScript

inductive Outline where
  | atom (text : String)
  | field (name : String) (part : Outline)
  | group (opening closing : String) (parts : List Outline)

namespace Outline

def indent (depth : Nat) : String :=
  String.ofList (List.replicate (4 * depth) ' ')

mutual

/-- The text of an outline whose first line is already indented to `depth`. -/
def render (depth : Nat) : Outline → String
  | .atom text => text
  | .field name part => name ++ ": " ++ part.render depth
  | .group opening closing [] => opening ++ closing
  | .group opening closing (part :: parts) =>
    opening ++ "\n" ++ renderParts (depth + 1) (part :: parts) ++ indent depth ++ closing

def renderParts (depth : Nat) : List Outline → String
  | [] => ""
  | part :: parts =>
    indent depth ++ part.render depth ++ ",\n" ++ renderParts depth parts

end

def tuple (name : String) (parts : List Outline) : Outline :=
  .group (name ++ "(") ")" parts

def record (name : String) (fields : List (String × Outline)) : Outline :=
  .group (name ++ " \x7b") "\x7d" (fields.map fun (label, part) => .field label part)

def list (parts : List Outline) : Outline :=
  .group "[" "]" parts

end Outline

end PiScript
