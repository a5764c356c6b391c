import PiScript.Error
import PiScript.Text.Lines
import PiScript.Text.Style

/-!
# Diagnostics

A diagnostic shows an error to the author of a program: its message, then, if the place of the error
lies in the text at hand, that line with a caret under the place, and last some advice that fits the
cause.
-/

namespace PiScript

namespace Diagnostic

open Text

/-! ## The excerpt -/

/-- The line of a text that an error at `p` points into. -/
def shownLine? (source : String) (p : Position) : Option (List Char) :=
  (lines source.toList)[p.line - 1]?

/-- The line number in front of a shown line, at least three characters wide. -/
def gutter (p : Position) : String :=
  let number := toString p.line
  String.ofList (List.replicate (3 - number.length) ' ') ++ number ++ " | "

/-- The blanks that bring a caret under column `p.col` of a line behind its gutter. -/
def caretIndent (p : Position) : Nat :=
  (gutter p).length + (p.col - 1)

def caret (p : Position) : String :=
  String.ofList (List.replicate (caretIndent p) ' ') ++ "^"

def frame : String := "     |\n"

def excerpt (p : Position) (line : List Char) : String :=
  frame ++
    paint .brightBlack (gutter p) ++ String.ofList line ++ "\n" ++
    paint .red (caret p) ++ paint .red " error here" ++ "\n" ++
    frame

/-- The place of an error, with an excerpt if the text has that line. -/
def location (source : String) (p : Position) : String :=
  "  --> line " ++ toString p.line ++ ", column " ++ toString p.col ++ "\n" ++
    match shownLine? source p with
    | some line => excerpt p line
    | none => ""

/-! ## Advice -/

structure Advice where
  headline : String
  details : List String := []

def advice? : Cause → Option Advice
  | .unexpectedWord text =>
    some
      { headline := "Every word must be a π-keyword, `--`, `**` or a +value+."
        details :=
          if ['3', '.'].isPrefixOf text.toList then
            ["Keywords are prefixes of 3.14159265358979, check the digits"]
          else
            ["Wrap literals and names in plus signs: +hello+ +42+"] }
  | .expectedLineEnd _ => some { headline := "Every statement ends with the line-end keyword `3.`" }
  | .unterminatedBlock =>
    some { headline := "Close every if, for, foreach and function with `3.14159265 3.`" }
  | .undeclaredFunction _ =>
    some { headline := "Define the function with `** +name+ 3.` before calling it." }
  | .undeclaredVariable _ =>
    some { headline := "Declare the variable first: 3.1 +name+ 3.1 +value+ 3." }
  | .invalidOperation .. =>
    some
      { headline := "Operators only work on compatible values:"
        details :=
          ["• Decimals: all arithmetic and comparisons",
           "• Strings: concatenation and (in)equality",
           "• Booleans: (in)equality only, null: nothing"] }
  | .division .nonTerminating =>
    some
      { headline :=
          "Division must have an exact decimal result (1/4 works, 1/3 does not)." }
  | .division _ => some { headline := "You cannot divide by zero." }
  | .unreadableFile .. =>
    some { headline := "Include paths are relative to the working directory." }
  | _ => none

def Advice.render (a : Advice) : String :=
  paint .yellow ("Help: " ++ a.headline) ++ "\n" ++
    String.join (a.details.map fun line => "    " ++ paint .brightBlack line ++ "\n")

/-! ## The whole diagnostic -/

def render (source : String) (e : Error) : String :=
  bold (paint .red e.cause.kind.label) ++ ": " ++ paint .red e.cause.message ++ "\n" ++
    (match e.pos with
    | some p => location source p
    | none => "") ++
    (match advice? e.cause with
    | some a => a.render
    | none => "")

end Diagnostic

end PiScript
