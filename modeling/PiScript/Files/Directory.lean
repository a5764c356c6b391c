import PiScript.Files

/-!
# A working directory

A directory is kept as a list of what it holds at any depth, each under the names that lead to it. A
path is walked name by name: empty names and `.` stay where they are, `..` goes up, and everything
walked through has to be a directory. Going up from the top, and starting with a slash, leads
outside, where there are directories but nothing that could be found.
-/

namespace PiScript

inductive Entry where
  | file (content : ByteArray)
  | directory

/-- What a working directory holds, each entry under the names that lead to it. -/
structure Directory where
  entries : List (List String × Entry) := []

namespace Directory

/-- What the given names lead to; no names lead to the directory itself. -/
def entry? (d : Directory) (names : List String) : Option Entry :=
  if names.isEmpty then some .directory else d.entries.lookup names

def set (d : Directory) (names : List String) (e : Entry) : Directory :=
  ⟨(names, e) :: d.entries.filter (·.1 != names)⟩

def namesOf (path : String) : List String :=
  path.splitOn "/"

inductive Place where
  | inside (names : List String)
  | outside

def at? (d : Directory) : Place → Option Entry
  | .inside names => d.entry? names
  | .outside => some .directory

def Place.up : Place → Place
  | .inside [] => .outside
  | .inside names => .inside names.dropLast
  | .outside => .outside

/-- The place that a name leads to, if there is anything. -/
def down? (d : Directory) (name : String) : Place → Option Place
  | .inside names =>
    let there := .inside (names ++ [name])
    (d.at? there).map fun _ => there
  | .outside => none

/-- How many bytes a name may have. -/
def maxName : Nat := 255

/-- How many bytes a path may have. -/
def maxPath : Nat := 4095

/-- Where a path leads from the place `here`. -/
def walk (d : Directory) (here : Place) : List String → Except ReadError Place
  | [] => .ok here
  | name :: rest =>
    match d.at? here with
    | none => .error .notFound
    | some (.file _) => .error .notDirectory
    | some .directory =>
      if name = "" ∨ name = "." then walk d here rest
      else if name = ".." then walk d here.up rest
      else if maxName < name.utf8ByteSize then .error .tooLong
      else
        match d.down? name here with
        | none => .error .notFound
        | some there => walk d there rest

def startOf (path : String) : Place :=
  if path.toList.head? = some '/' then .outside else .inside []

def read (d : Directory) (path : String) : Except ReadError String :=
  if path.toList.contains '\x00' then .error .zeroByte
  else if path = "" then .error .notFound
  else if maxPath < path.utf8ByteSize then .error .tooLong
  else
    match walk d (startOf path) (namesOf path) with
    | .error e => .error e
    | .ok place =>
      match d.at? place with
      | none => .error .notFound
      | some .directory => .error .isDirectory
      | some (.file content) =>
        match String.fromUTF8? content with
        | none => .error .notText
        | some text => .ok text

/-- The directories that lead to the given names, outermost first. -/
def parents (names : List String) : List (List String) :=
  ((List.range names.length).drop 1).map names.take

def plainNames (path : String) : List String :=
  (namesOf path).filter fun name => name != "" && name != "."

def put (d : Directory) (path : String) (e : Entry) : Directory :=
  let names := plainNames path
  ((parents names).foldl (fun d names => d.set names .directory) d).set names e

def delete (d : Directory) (path : String) : Directory :=
  let names := plainNames path
  ⟨d.entries.filter (·.1 != names)⟩

end Directory

end PiScript
