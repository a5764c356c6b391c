import PiScript.Session
import PiScript.Statement.Outline

/-!
# The command line

Without a file the command starts a session. With one it runs the program in it, or shows its tokens
or its outline instead. Arguments are taken from left to right, and the first one that asks for help
or makes no sense decides.
-/

namespace PiScript

namespace CommandLine

open Text

/-! ## Arguments -/

structure Options where
  file : Option String := none
  tokens : Bool := false
  tree : Bool := false
deriving DecidableEq

inductive Request where
  | help
  | invalid
  | start (o : Options)
deriving DecidableEq

inductive Argument where
  | help
  | invalid
  | tokens
  | tree
  /-- All further arguments are files. -/
  | endOfOptions
  | file (path : String)
deriving DecidableEq

namespace Argument

/-- What an argument is in front of the end of options. A lone dash is a file, and a cluster of
short options is decided by its first letter. -/
def ofString (arg : String) : Argument :=
  match arg.toList with
  | ['-', '-'] => .endOfOptions
  | '-' :: '-' :: _ =>
    if arg = "--tokens" then .tokens
    else if arg = "--ast" then .tree
    else if arg = "--help" then .help
    else .invalid
  | '-' :: 'h' :: _ => .help
  | '-' :: _ :: _ => .invalid
  | _ => .file arg

end Argument

/-- Takes further arguments, all of them files if `onlyFiles`. No option may be repeated, and only
one file may be given. -/
def requestFrom (o : Options) (onlyFiles : Bool) : List String → Request
  | [] => .start o
  | arg :: rest =>
    match if onlyFiles then .file arg else Argument.ofString arg with
    | .help => .help
    | .invalid => .invalid
    | .tokens => if o.tokens then .invalid else requestFrom { o with tokens := true } onlyFiles rest
    | .tree => if o.tree then .invalid else requestFrom { o with tree := true } onlyFiles rest
    | .endOfOptions => requestFrom o true rest
    | .file path =>
      if o.file.isSome then .invalid else requestFrom { o with file := some path } onlyFiles rest

def request (args : List String) : Request :=
  requestFrom {} false args

/-! ## Texts -/

def help : String :=
  "Run pifuck programs, or start a REPL when no file is given\n" ++
  "\n" ++
  "Usage: pifuck [OPTIONS] [FILE]\n" ++
  "\n" ++
  "Arguments:\n" ++
  "  [FILE]  Program to run; must end in `.pifuck`\n" ++
  "\n" ++
  "Options:\n" ++
  "      --tokens  Print the token stream instead of running\n" ++
  "      --ast     Print the parsed program instead of running\n" ++
  "  -h, --help    Print help\n"

def extension : List Char := ['.', 'p', 'i', 'f', 'u', 'c', 'k']

def usage : String := "Usage: pifuck file.pifuck\n"

def unreadable (path : String) (reason : ReadError) : String :=
  bold (paint .red "error") ++ ": " ++
    paint .red ("Failed to read " ++ path ++ ": " ++ reason.message) ++ "\n"

def tokenLine (t : Token) : String :=
  t.kind.name ++ " '" ++ t.text ++ "' " ++ toString t.pos.line ++ ":" ++ toString t.pos.col ++ "\n"

/-! ## Responses -/

structure Response where
  code : Nat := 0
  out : ByteArray := .empty
  err : String := ""

def Response.print (text : String) : Response :=
  { out := text.toUTF8 }

/-- Runs or shows the program in a text; `none` if the fuel does not suffice. -/
def runText (files : Files) (fuel : Nat) (o : Options) (source : String) : Option Response :=
  let ts := Token.lex source
  if o.tokens then some (.print (String.join (ts.map tokenLine)))
  else
    match Program.ofTokens ts with
    | .error e => some { code := 1, err := Diagnostic.render source e }
    | .ok program =>
      if o.tree then some (.print (program.outline.render 0 ++ "\n"))
      else
        match program.run files fuel {} with
        | .done m => some { out := m.sink.written }
        | .failed e m =>
          some { code := 1, out := m.sink.written, err := Diagnostic.render source e }
        | .outOfFuel => none

def runFile (files : Files) (fuel : Nat) (o : Options) (path : String) : Option Response :=
  if extension.isSuffixOf path.toList then
    match files path with
    | .error reason => some { code := 1, err := unreadable path reason }
    | .ok source => runText files fuel o source
  else
    some (.print usage)

/-- The exit code for arguments that make no sense. -/
def invalidCode : Nat := 2

def splitBytes (bytes : List UInt8) : List (List UInt8) :=
  match bytes with
  | [] => []
  | b :: rest =>
    if b = 10 then [b] :: splitBytes rest
    else
      match splitBytes rest with
      | [] => [[b]]
      | line :: lines => (b :: line) :: lines

/-- The lines of the input, each `none` if it is not UTF-8. -/
def inputLines (input : ByteArray) : List (Option String) :=
  (splitBytes input.data.toList).map fun line => String.fromUTF8? ⟨line.toArray⟩

def runSession (files : Files) (fuel : Nat) (input : ByteArray) : Option Response :=
  (Session.transcript files fuel (inputLines input)).map fun t => { out := t.out, err := t.err }

/-- What the command does with its arguments and its input; `none` if the fuel does not suffice. -/
def respond (files : Files) (fuel : Nat) (args : List String) (input : ByteArray) :
    Option Response :=
  match request args with
  | .help => some (.print help)
  | .invalid => some { code := invalidCode }
  | .start o =>
    match o.file with
    | none => runSession files fuel input
    | some path => runFile files fuel o path

end CommandLine

end PiScript
