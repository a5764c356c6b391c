/-!
# Reading files

A program sees files only by reading them as text. `Files` gives for every path the text behind it
or the reason why there is none; it does not change while a program runs. What reasons there are is
up to the system that holds the files.
-/

namespace PiScript

/-- Why a path could not be read as text, in words. -/
structure ReadError where
  message : String
deriving DecidableEq

namespace ReadError

def notFound : ReadError :=
  ⟨"No such file or directory (os error 2)"⟩

/-- The path goes through something that is not a directory. -/
def notDirectory : ReadError :=
  ⟨"Not a directory (os error 20)"⟩

def isDirectory : ReadError :=
  ⟨"Is a directory (os error 21)"⟩

/-- The path or one of its names is too long. -/
def tooLong : ReadError :=
  ⟨"File name too long (os error 36)"⟩

def zeroByte : ReadError :=
  ⟨"file name contained an unexpected NUL byte"⟩

def notText : ReadError :=
  ⟨"stream did not contain valid UTF-8"⟩

end ReadError

abbrev Files := String → Except ReadError String

end PiScript
