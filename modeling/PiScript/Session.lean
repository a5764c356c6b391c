import PiScript.Diagnostic
import PiScript.Machine

/-!
# Interactive sessions

A session reads lines. A line that starts with a colon is a command, unless an entry is pending;
every other line is added to the pending entry, which is run as soon as no block is open in it. What
becomes of a line depends on the pending text only and not on what earlier entries did.
-/

namespace PiScript

inductive Command where
  | quit
  | help
  | vars
  | functions
  | reset
  | unknown
deriving DecidableEq

namespace Command

def ofText (s : String) : Command :=
  if s = ":quit" ∨ s = ":q" then .quit
  else if s = ":help" then .help
  else if s = ":vars" then .vars
  else if s = ":funcs" then .functions
  else if s = ":reset" then .reset
  else .unknown

end Command

inductive Action where
  | command (c : Command)
  | wait (pending : String)
  | submit (entry : String)

/-- The depth behind one more token: a token that opens a block raises it, an end of block lowers
it. It has 32 bits and wraps around. -/
def depthStep (d : Int32) (k : TokenKind) : Int32 :=
  if k.opensBlock then d + 1 else if k = .endBlock then d - 1 else d

/-- The depth behind a text, which may be negative. -/
def depth32 (ts : List Token) : Int32 :=
  ts.foldl (fun d t => depthStep d t.kind) 0

/-- Whether no block is taken to be open behind a text. -/
def isComplete (text : String) : Bool :=
  decide (depth32 (Token.lex text) ≤ 0)

def Action.ofLine (pending line : String) : Action :=
  let trimmed := Text.trimEnd line.toList
  if pending = "" ∧ trimmed.head? = some ':' then
    .command (.ofText (String.ofList trimmed))
  else
    let text := pending ++ line
    if isComplete text then .submit text else .wait text

structure Session where
  env : Env := .empty
  pending : String := ""

structure Reply where
  out : ByteArray := .empty
  err : String := ""
  next : Option Session

namespace Session

open Text

/-! ## Texts -/

def banner : String :=
  paint .green (bold "pifuck REPL. Type :help for help, :quit to exit.") ++ "\n"

def prompt (s : Session) : String :=
  paint .cyan (if s.pending = "" then "π> " else ".. ")

def farewell : String := "Goodbye.\n"

def endOfInput : String := "\n" ++ farewell

def inputError : String := "<input error>\n"

def help : String :=
  bold "Commands:" ++ "\n" ++
  "  " ++ paint .yellow ":help" ++ "   Show this help\n" ++
  "  " ++ paint .yellow ":quit" ++ "   Exit the REPL (also :q)\n" ++
  "  " ++ paint .yellow ":vars" ++ "   List variables\n" ++
  "  " ++ paint .yellow ":funcs" ++ "  List defined functions\n" ++
  "  " ++ paint .yellow ":reset" ++ "  Forget all variables and functions\n" ++
  "Blocks stay open until every if, for, foreach and function is closed by 3.14159265.\n"

def varsListing (env : Env) : String :=
  if env.vars.entries.isEmpty then dim "<no vars>" ++ "\n"
  else
    String.join
      (env.vars.entries.map fun (name, v) =>
        paint .yellow name ++ " = " ++ paint .brightBlue v.render ++ "\n")

def functionsListing (env : Env) : String :=
  if env.functions.entries.isEmpty then dim "<no functions>" ++ "\n"
  else String.join (env.functions.names.map fun name => paint .yellow name ++ "\n")

/-! ## Answers -/

def say (s : Session) (text : String) : Reply :=
  { out := text.toUTF8, next := some s }

def command (s : Session) : Command → Reply
  | .quit => { out := farewell.toUTF8, next := none }
  | .help => s.say help
  | .vars => s.say (varsListing s.env)
  | .functions => s.say (functionsListing s.env)
  | .reset => say { s with env := .empty } (paint .yellow "State reset." ++ "\n")
  | .unknown => s.say (paint .red "Unknown command. Type :help." ++ "\n")

/-- Runs an entry; `none` if the fuel does not suffice. Nothing is pending afterwards. -/
def submit (files : Files) (fuel : Nat) (s : Session) (entry : String) : Option Reply :=
  match Program.ofText entry with
  | .error e => some { err := Diagnostic.render entry e, next := some { s with pending := "" } }
  | .ok program =>
    match program.run files fuel { env := s.env } with
    | .done m => some { out := m.sink.written, next := some { env := m.env } }
    | .failed e m =>
      some
        { out := m.sink.written
          err := Diagnostic.render entry e
          next := some { env := m.env } }
    | .outOfFuel => none

/-- Answers a line; `none` if the fuel does not suffice. -/
def feed (files : Files) (fuel : Nat) (s : Session) (line : String) : Option Reply :=
  match Action.ofLine s.pending line with
  | .command c => some (s.command c)
  | .wait pending => some { next := some { s with pending := pending } }
  | .submit entry => s.submit files fuel entry

/-! ## Whole sessions -/

structure Transcript where
  out : ByteArray := .empty
  err : String := ""

def Transcript.add (t : Transcript) (r : Reply) : Transcript :=
  ⟨t.out ++ r.out, t.err ++ r.err⟩

def Transcript.print (t : Transcript) (text : String) : Transcript :=
  { t with out := t.out ++ text.toUTF8 }

/-- Goes through lines of input, each `none` if it is not text, and adds to what was printed before;
`none` if the fuel does not suffice. -/
def converse (files : Files) (fuel : Nat) :
    List (Option String) → Session → Transcript → Option Transcript
  | [], s, t => some ((t.print s.prompt).print endOfInput)
  | none :: _, s, t => some ((t.print s.prompt).print inputError)
  | some line :: rest, s, t =>
    match s.feed files fuel line with
    | none => none
    | some reply =>
      let t := (t.print s.prompt).add reply
      match reply.next with
      | none => some t
      | some s => converse files fuel rest s t

def transcript (files : Files) (fuel : Nat) (input : List (Option String)) : Option Transcript :=
  converse files fuel input {} (Transcript.print {} banner)

end Session

end PiScript
