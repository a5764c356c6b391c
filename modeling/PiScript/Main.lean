import PiScript.CommandLine
import PiScript.Statement.Inclusions

/-!
# The command

Reads the files that a program can reach, hands them to the library as they are at that moment, and
prints what it answers. A session goes on line by line, so every entry sees the files anew.
-/

namespace PiScript

namespace Main

/-- More fuel than any program uses up in practice. -/
def fuel : Nat := 1000000000000000000

def readPath (path : String) : IO (Except ReadError String) := do
  if path.toList.contains '\x00' then
    return .error .zeroByte
  try
    let content ← IO.FS.readBinFile path
    match String.fromUTF8? content with
    | some text => return .ok text
    | none => return .error .notText
  catch
    | .inappropriateType _ code _ =>
      return .error (if code = 20 then .notDirectory else .isDirectory)
    | .invalidArgument _ _ _ => return .error .tooLong
    | _ => return .error .notFound

abbrev Snapshot := List (String × Except ReadError String)

def Snapshot.files (s : Snapshot) : Files :=
  fun path => (s.lookup path).getD (.error .notFound)

def inclusionsOf (text : String) : List String :=
  match Program.ofText text with
  | .ok p => Program.inclusions p
  | .error _ => []

/-- Reads the given paths and all that are named by the programs found there. -/
partial def snapshot (read : Snapshot) : List String → IO Snapshot
  | [] => return read
  | path :: rest => do
    if (read.lookup path).isSome then
      snapshot read rest
    else
      let result ← readPath path
      let found :=
        match result with
        | .ok text => inclusionsOf text
        | .error _ => []
      snapshot ((path, result) :: read) (found ++ rest)

def emit (out : ByteArray) (err : String) : IO Unit := do
  let stdout ← IO.getStdout
  stdout.write out
  stdout.flush
  (← IO.getStderr).putStr err

/-- Reads a line, keeping its line feed; `none` if it is not text. -/
def readLine : IO (Option String) := do
  try
    return some (← (← IO.getStdin).getLine)
  catch _ =>
    return none

partial def converse (s : Session) : IO Unit := do
  emit s.prompt.toUTF8 ""
  match ← readLine with
  | none => emit Session.inputError.toUTF8 ""
  | some "" => emit Session.endOfInput.toUTF8 ""
  | some line =>
    let reachable ← snapshot [] (inclusionsOf (s.pending ++ line) ++ s.env.inclusions)
    match s.feed reachable.files fuel line with
    | none => return
    | some reply =>
      emit reply.out reply.err
      match reply.next with
      | none => return
      | some s => converse s

/-- Answers arguments that do not start a session. -/
def answer (args : List String) (paths : List String) : IO UInt32 := do
  let reachable ← snapshot [] paths
  match CommandLine.respond reachable.files fuel args .empty with
  | none => return 1
  | some response =>
    emit response.out response.err
    return response.code.toUInt32

end Main

end PiScript

open PiScript in
/-- Starts a session, or runs or shows the program that the arguments name. -/
def main (args : List String) : IO UInt32 := do
  match CommandLine.request args with
  | .help | .invalid => Main.answer args []
  | .start o =>
    match o.file with
    | some path => Main.answer args [path]
    | none =>
      Main.emit Session.banner.toUTF8 ""
      Main.converse {}
      return 0
